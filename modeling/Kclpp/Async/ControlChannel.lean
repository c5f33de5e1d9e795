import Kclpp.Async.DataChannel
import Kclpp.Async.Queues.MPSCEventChannel

/-!
# Draining the control channel

Any number of threads, the event thread among them, send control messages, and
the event thread runs `EventContext::drainControlChannel` when the channel is
bound and whenever its event file descriptor is readable. A send is four steps,
of which the first takes the lock and gives the send its number. The work of a
message may send: it is between two reads that the event thread takes the lock.

A drain ends at an empty queue only, so that a message waits either for a drain
that is running, or for a signal that is there or will be given: `Awake`.
-/

namespace Kclpp

namespace Async

open Queues

open Transition (run Meets run_append run_relation exists_run_to_final)

/-- Who sends: a thread, or the event thread. -/
inductive Sender (τ : Type*) where
  | thread (name : τ)
  | eventThread
  deriving DecidableEq

inductive SendPhase where
  | locked
  | enqueued
  | finished
  deriving DecidableEq, Repr

/-- A send that holds the lock, with its number. -/
structure Send (τ α : Type*) where
  sender : Sender τ
  number : ℕ
  msg : α
  phase : SendPhase := .locked
  deriving DecidableEq

/-- The channel, the send that holds the lock and the event thread, with the
messages in the order in which their sends have taken the lock, and those that
the queue has accepted and whose work has been executed, with the number of their
send. -/
structure ControlChannel (τ α : Type*) where
  channel : MPSCEventChannel (ℕ × α) := {}
  holder : Option (Send τ α) := none
  bound : Bool := false
  drain : Drain (ℕ × α) := .idle
  acquired : List α := []
  accepted : List (ℕ × α) := []
  executed : List (ℕ × α) := []

inductive ControlStep (τ α : Type*) where
  | lock (sender : Sender τ) (msg : α)
  | tryEnqueue (hasRoom : Bool)
  | signal
  | unlock
  | bindControlChannel
  | onReadable
  | readSignal
  | tryDequeue
  | work
  deriving DecidableEq

namespace ControlChannel

variable {τ α : Type*}

def queue (s : ControlChannel τ α) : List (ℕ × α) := s.channel.channel.queue

def counter (s : ControlChannel τ α) : ℕ := s.channel.channel.eventFD.counter

def eventThreadSends (s : ControlChannel τ α) : Bool :=
  s.holder.any fun send =>
    match send.sender with
    | .eventThread => true
    | .thread _ => false

/-- The sender is not in the middle of something else. The event thread sends
from the work of a message, or while no drain is running. -/
def mayLock (s : ControlChannel τ α) : Sender τ → Bool
  | .thread _ => true
  | .eventThread =>
      match s.drain with
      | .idle | .working _ => true
      | _ => false

def step (s : ControlChannel τ α) : ControlStep τ α → Option (ControlChannel τ α)
  | .lock sender msg =>
      if s.mayLock sender then
        s.channel.lock.map fun channel =>
          { s with
            channel := channel
            holder := some { sender := sender, number := s.acquired.length, msg := msg }
            acquired := s.acquired ++ [msg] }
      else none
  | .tryEnqueue hasRoom =>
      match s.holder with
      | some ⟨sender, number, msg, .locked⟩ =>
          match s.channel.tryEnqueue hasRoom (number, msg) with
          | (true, channel) =>
              some { s with
                channel := channel
                holder := some ⟨sender, number, msg, .enqueued⟩
                accepted := s.accepted ++ [(number, msg)] }
          | (false, channel) =>
              some { s with
                channel := channel
                holder := some ⟨sender, number, msg, .finished⟩ }
      | _ => none
  | .signal =>
      match s.holder with
      | some ⟨sender, number, msg, .enqueued⟩ =>
          some { s with
            channel := s.channel.signal.2
            holder := some ⟨sender, number, msg, .finished⟩ }
      | _ => none
  | .unlock =>
      match s.holder with
      | some ⟨_, _, _, .finished⟩ =>
          some { s with channel := s.channel.unlock, holder := none }
      | _ => none
  | .bindControlChannel =>
      match s.drain with
      | .idle =>
          if s.bound || s.eventThreadSends then none
          else some { s with bound := true, drain := .reading }
      | _ => none
  | .onReadable =>
      match s.drain with
      | .idle =>
          if s.bound && s.counter ≠ 0 && !s.eventThreadSends then
            some { s with drain := .reading }
          else none
      | _ => none
  | .readSignal =>
      match s.drain with
      | .reading =>
          match s.channel.readSignal with
          | (.ok (), channel) =>
              some { s with channel := channel, drain := .dequeuing }
          | (.error _, channel) =>
              some { s with channel := channel, drain := .idle }
      | _ => none
  | .tryDequeue =>
      match s.drain with
      | .dequeuing =>
          match s.channel.tryDequeue with
          | (some msg, channel) =>
              some { s with channel := channel, drain := .working msg }
          | (none, channel) =>
              some { s with channel := channel, drain := .idle }
      | _ => none
  | .work =>
      match s.drain with
      | .working msg =>
          if s.eventThreadSends then none
          else
            some { s with
              drain := .reading
              executed := s.executed ++ [msg] }
      | _ => none

/-- No send is in progress, no drain is running and the counter is zero. -/
structure Quiescent (s : ControlChannel τ α) : Prop where
  holder : s.holder = none
  drain : s.drain = .idle
  counter : s.counter = 0

def inHand (s : ControlChannel τ α) : List (ℕ × α) :=
  match s.drain with
  | .working msg => [msg]
  | _ => []

inductive Stepped (s : ControlChannel τ α) :
    ControlStep τ α → ControlChannel τ α → Prop
  | locked (sender : Sender τ) (msg : α) (hholder : s.channel.locked = false) :
      Stepped s (.lock sender msg)
        { s with
          channel := { s.channel with locked := true }
          holder := some ⟨sender, s.acquired.length, msg, .locked⟩
          acquired := s.acquired ++ [msg] }
  | enqueued (sender : Sender τ) (number : ℕ) (msg : α)
      (hholder : s.holder = some ⟨sender, number, msg, .locked⟩) :
      Stepped s (.tryEnqueue true)
        { s with
          channel := { s.channel with
            channel := { s.channel.channel with
              queue := s.channel.channel.queue ++ [(number, msg)] } }
          holder := some ⟨sender, number, msg, .enqueued⟩
          accepted := s.accepted ++ [(number, msg)] }
  | queueFull (sender : Sender τ) (number : ℕ) (msg : α)
      (hholder : s.holder = some ⟨sender, number, msg, .locked⟩) :
      Stepped s (.tryEnqueue false)
        { s with holder := some ⟨sender, number, msg, .finished⟩ }
  | signalled (sender : Sender τ) (number : ℕ) (msg : α)
      (hholder : s.holder = some ⟨sender, number, msg, .enqueued⟩) (n : ℕ)
      (hn : n ≠ 0) :
      Stepped s .signal
        { s with
          channel := { s.channel with
            channel := { s.channel.channel with eventFD := { counter := n } } }
          holder := some ⟨sender, number, msg, .finished⟩ }
  | unlocked (sender : Sender τ) (number : ℕ) (msg : α)
      (hholder : s.holder = some ⟨sender, number, msg, .finished⟩) :
      Stepped s .unlock
        { s with channel := { s.channel with locked := false }, holder := none }
  | bound (hdrain : s.drain = .idle) (hbound : s.bound = false) :
      Stepped s .bindControlChannel { s with bound := true, drain := .reading }
  | readable (hdrain : s.drain = .idle) (hcounter : s.counter ≠ 0) :
      Stepped s .onReadable { s with drain := .reading }
  | signalRead (hdrain : s.drain = .reading) :
      Stepped s .readSignal
        { s with
          channel := { s.channel with
            channel := { s.channel.channel with eventFD := { counter := 0 } } }
          drain := .dequeuing }
  | dequeued (msg : ℕ × α) (rest : List (ℕ × α)) (hdrain : s.drain = .dequeuing)
      (hqueue : s.queue = msg :: rest) :
      Stepped s .tryDequeue
        { s with
          channel := { s.channel with
            channel := { s.channel.channel with queue := rest } }
          drain := .working msg }
  | queueEmpty (hdrain : s.drain = .dequeuing) (hqueue : s.queue = []) :
      Stepped s .tryDequeue { s with drain := .idle }
  | worked (msg : ℕ × α) (hdrain : s.drain = .working msg) :
      Stepped s .work { s with drain := .reading, executed := s.executed ++ [msg] }

/-- A signal leaves the counter away from zero, also where it finds it at its
largest value. -/
theorem signal_eq (channel : MPSCEventChannel α) :
    ∃ n, n ≠ 0 ∧ channel.signal.2 = { channel with
      channel := { channel.channel with eventFD := { counter := n } } } := by
  unfold MPSCEventChannel.signal SPSCEventChannel.signal
  rw [EventFD.write_one]
  by_cases hcounter : channel.channel.eventFD.counter + 1 ≤ EventFD.maxCounter
  · refine ⟨channel.channel.eventFD.counter + 1, Nat.succ_ne_zero _, ?_⟩
    simp only [if_pos hcounter]
  · refine ⟨channel.channel.eventFD.counter, ?_, ?_⟩
    · have hmax : 1 ≤ EventFD.maxCounter := by decide
      omega
    · simp only [if_neg hcounter]

theorem stepped_of_step {s s' : ControlChannel τ α} {l : ControlStep τ α}
    (h : step s l = some s') : Stepped s l s' := by
  cases l with
  | lock sender msg =>
      simp only [step, MPSCEventChannel.lock] at h
      split_ifs at h with hmay hlocked
      · cases h
      · cases h
        exact Stepped.locked sender msg (Bool.eq_false_iff.mpr hlocked)
  | tryEnqueue hasRoom =>
      simp only [step] at h
      split at h
      · rename_i sender number msg hholder
        cases hasRoom with
        | false =>
            cases h
            exact Stepped.queueFull sender number msg hholder
        | true =>
            cases h
            exact Stepped.enqueued sender number msg hholder
      · cases h
  | signal =>
      simp only [step] at h
      split at h
      · rename_i sender number msg hholder
        obtain ⟨n, hn, hsignal⟩ := signal_eq s.channel
        rw [hsignal] at h
        cases h
        exact Stepped.signalled sender number msg hholder n hn
      · cases h
  | unlock =>
      simp only [step] at h
      split at h
      · rename_i sender number msg hholder
        cases h
        exact Stepped.unlocked sender number msg hholder
      · cases h
  | bindControlChannel =>
      simp only [step] at h
      split at h
      · rename_i hdrain
        split_ifs at h with hbusy
        cases h
        rw [Bool.or_eq_true, not_or] at hbusy
        exact Stepped.bound hdrain (Bool.eq_false_iff.mpr hbusy.1)
      · cases h
  | onReadable =>
      simp only [step] at h
      split at h
      · rename_i hdrain
        split_ifs at h with hready
        cases h
        simp only [Bool.and_eq_true, decide_eq_true_eq] at hready
        exact Stepped.readable hdrain hready.1.2
      · cases h
  | readSignal =>
      simp only [step, MPSCEventChannel.readSignal_eq] at h
      split at h
      · rename_i hdrain
        cases h
        exact Stepped.signalRead hdrain
      · cases h
  | tryDequeue =>
      simp only [step] at h
      split at h
      · rename_i hdrain
        cases hqueue : s.queue with
        | nil =>
            have hqueue' : s.channel.channel.queue = [] := hqueue
            simp only [MPSCEventChannel.tryDequeue, SPSCEventChannel.tryDequeue,
              hqueue'] at h
            cases h
            exact Stepped.queueEmpty hdrain hqueue
        | cons msg rest =>
            have hqueue' : s.channel.channel.queue = msg :: rest := hqueue
            simp only [MPSCEventChannel.tryDequeue, SPSCEventChannel.tryDequeue,
              hqueue'] at h
            cases h
            exact Stepped.dequeued msg rest hdrain hqueue
      · cases h
  | work =>
      simp only [step] at h
      split at h
      · rename_i msg hdrain
        split_ifs at h
        cases h
        exact Stepped.worked msg hdrain
      · cases h

/-- The send that holds the lock has enqueued its message and not yet signalled. -/
def signalComes (s : ControlChannel τ α) : Bool :=
  s.holder.any fun send => send.phase = .enqueued

/-- Where a message waits, a drain is running, or a signal is there or will be
given. The lock is taken exactly while a send holds it. -/
structure Awake (s : ControlChannel τ α) : Prop where
  wakes : s.queue ≠ [] → s.drain ≠ .idle ∨ s.counter ≠ 0 ∨ s.signalComes = true
  locked : s.channel.locked = s.holder.isSome

theorem awake_step {s s' : ControlChannel τ α} {l : ControlStep τ α}
    (hs : Awake s) (h : Stepped s l s') : Awake s' := by
  obtain ⟨hwakes, hlocked⟩ := hs
  cases h with
  | locked sender msg hfree =>
      refine ⟨fun hqueue => ?_, rfl⟩
      rcases hwakes hqueue with hdrain | hcounter | hcomes
      · exact Or.inl hdrain
      · exact Or.inr (Or.inl hcounter)
      · rw [hlocked, Option.isSome_eq_false_iff, Option.isNone_iff_eq_none] at hfree
        simp [signalComes, hfree] at hcomes
  | enqueued sender number msg hholder =>
      rw [hholder] at hlocked
      exact ⟨fun _ => Or.inr (Or.inr rfl), hlocked⟩
  | queueFull sender number msg hholder =>
      rw [hholder] at hlocked
      refine ⟨fun hqueue => ?_, hlocked⟩
      rcases hwakes hqueue with hdrain | hcounter | hcomes
      · exact Or.inl hdrain
      · exact Or.inr (Or.inl hcounter)
      · simp [signalComes, hholder] at hcomes
  | signalled sender number msg hholder n hn =>
      rw [hholder] at hlocked
      exact ⟨fun _ => Or.inr (Or.inl hn), hlocked⟩
  | unlocked sender number msg hholder =>
      refine ⟨fun hqueue => ?_, rfl⟩
      rcases hwakes hqueue with hdrain | hcounter | hcomes
      · exact Or.inl hdrain
      · exact Or.inr (Or.inl hcounter)
      · simp [signalComes, hholder] at hcomes
  | bound hdrain hbound => exact ⟨fun _ => Or.inl (by simp), hlocked⟩
  | readable hdrain hcounter => exact ⟨fun _ => Or.inl (by simp), hlocked⟩
  | signalRead hdrain => exact ⟨fun _ => Or.inl (by simp), hlocked⟩
  | dequeued msg rest hdrain hqueue => exact ⟨fun _ => Or.inl (by simp), hlocked⟩
  | queueEmpty hdrain hqueue =>
      exact ⟨fun hqueue' => absurd hqueue hqueue', hlocked⟩
  | worked msg hdrain => exact ⟨fun _ => Or.inl (by simp), hlocked⟩

/-- The messages that were accepted are those executed, the one in hand and those
in the queue. They are in the order of the numbers of their sends, and a send that
is about to enqueue has a number that is larger still. -/
structure Ordered (s : ControlChannel τ α) : Prop where
  order : s.executed ++ s.inHand ++ s.queue = s.accepted
  increasing : s.accepted.Pairwise fun a b => a.1 < b.1
  acquired : ∀ sent ∈ s.accepted, s.acquired[sent.1]? = some sent.2
  holder : ∀ send ∈ s.holder, s.acquired[send.number]? = some send.msg ∧
    (send.phase = .locked → ∀ sent ∈ s.accepted, sent.1 < send.number)

theorem ordered_step {s s' : ControlChannel τ α} {l : ControlStep τ α}
    (hs : Ordered s) (h : Stepped s l s') : Ordered s' := by
  obtain ⟨horder, hincreasing, hacquired, hholds⟩ := hs
  have hlt : ∀ sent ∈ s.accepted, sent.1 < s.acquired.length := fun sent hsent =>
    (List.getElem?_eq_some_iff.mp (hacquired sent hsent)).1
  cases h with
  | locked sender msg hfree =>
      refine ⟨horder, hincreasing, fun sent hsent => ?_, ?_⟩
      · rw [List.getElem?_append_left (hlt sent hsent)]
        exact hacquired sent hsent
      · rintro send ⟨⟩
        exact ⟨List.getElem?_concat_length, fun _ => hlt⟩
  | enqueued sender number msg hholder =>
      obtain ⟨hmsg, hlast⟩ := hholds ⟨sender, number, msg, .locked⟩ hholder
      refine ⟨?_, ?_, ?_, ?_⟩
      · simp only [inHand, queue] at horder ⊢
        rw [← horder, List.append_assoc, List.append_assoc, List.append_assoc]
      · rw [List.pairwise_append]
        refine ⟨hincreasing, List.pairwise_singleton _ _, ?_⟩
        intro sent hsent new hnew
        rw [List.mem_singleton] at hnew
        rw [hnew]
        exact hlast rfl sent hsent
      · intro sent hsent
        rcases List.mem_append.mp hsent with hsent | hsent
        · exact hacquired sent hsent
        · rw [List.mem_singleton] at hsent
          rw [hsent]
          exact hmsg
      · rintro send ⟨⟩
        exact ⟨hmsg, fun hphase => by cases hphase⟩
  | queueFull sender number msg hholder =>
      refine ⟨horder, hincreasing, hacquired, ?_⟩
      rintro send ⟨⟩
      exact ⟨(hholds _ hholder).1, fun hphase => by cases hphase⟩
  | signalled sender number msg hholder n hn =>
      refine ⟨horder, hincreasing, hacquired, ?_⟩
      rintro send ⟨⟩
      exact ⟨(hholds _ hholder).1, fun hphase => by cases hphase⟩
  | unlocked sender number msg hholder =>
      refine ⟨horder, hincreasing, hacquired, ?_⟩
      rintro send ⟨⟩
  | bound hdrain hbound =>
      refine ⟨?_, hincreasing, hacquired, hholds⟩
      simpa only [inHand, hdrain, queue] using horder
  | readable hdrain hcounter =>
      refine ⟨?_, hincreasing, hacquired, hholds⟩
      simpa only [inHand, hdrain, queue] using horder
  | signalRead hdrain =>
      refine ⟨?_, hincreasing, hacquired, hholds⟩
      simpa only [inHand, hdrain, queue] using horder
  | dequeued msg rest hdrain hqueue =>
      refine ⟨?_, hincreasing, hacquired, hholds⟩
      rw [hqueue] at horder
      simpa [inHand, hdrain, queue] using horder
  | queueEmpty hdrain hqueue =>
      refine ⟨?_, hincreasing, hacquired, hholds⟩
      simpa only [inHand, hdrain, queue] using horder
  | worked msg hdrain =>
      refine ⟨?_, hincreasing, hacquired, hholds⟩
      simpa [inHand, hdrain, queue] using horder

theorem awake_run {s : ControlChannel τ α} {ls : List (ControlStep τ α)}
    (h : run step {} ls = some s) : Awake s :=
  Transition.run_invariant
    (fun _ _ _ hs hstep => awake_step hs (stepped_of_step hstep))
    ⟨fun hqueue => absurd rfl hqueue, rfl⟩ h

theorem ordered_run {s : ControlChannel τ α} {ls : List (ControlStep τ α)}
    (h : run step {} ls = some s) : Ordered s :=
  Transition.run_invariant
    (fun _ _ _ hs hstep => ordered_step hs (stepped_of_step hstep))
    ⟨rfl, List.Pairwise.nil, List.forall_mem_nil _, fun _ hsend => by cases hsend⟩ h

/-- The step is not the beginning of another send. -/
def startsNoSend : ControlStep τ α → Bool
  | .lock _ _ => false
  | _ => true

/-- What the send that holds the lock has still to do. -/
def sendRank : Option (Send τ α) → ℕ
  | none => 0
  | some send =>
      match send.phase with
      | .locked => 12
      | .enqueued => 8
      | .finished => 1

/-- What the event thread has still to do next to the messages of the queue, with
a signal there and without. -/
def drainRank {β : Type*} : Drain β → ℕ → ℕ
  | .idle, counter => if counter = 0 then 0 else 5
  | .reading, counter => if counter = 0 then 2 else 4
  | .dequeuing, counter => if counter = 0 then 1 else 6
  | .working _, counter => if counter = 0 then 3 else 5

def remaining (s : ControlChannel τ α) : ℕ :=
  3 * s.queue.length + sendRank s.holder + drainRank s.drain s.counter +
    if s.bound then 0 else 3

/-- A signal gives the event thread something to do, though less than it takes
from the send. -/
theorem drainRank_le {β : Type*} (drain : Drain β) (m n : ℕ) :
    drainRank drain n ≤ drainRank drain m + 5 := by
  cases drain <;> simp only [drainRank] <;> split_ifs <;> omega

theorem drainRank_reading_lt {β : Type*} (n : ℕ) :
    drainRank (.reading : Drain β) n < drainRank (.idle : Drain β) n + 3 ∧
      (n ≠ 0 → drainRank (.reading : Drain β) n < drainRank (.idle : Drain β) n) := by
  simp only [drainRank]
  split_ifs <;> omega

theorem drainRank_dequeuing_lt {β : Type*} (n : ℕ) :
    drainRank (.dequeuing : Drain β) 0 < drainRank (.reading : Drain β) n ∧
      drainRank (.idle : Drain β) n < drainRank (.dequeuing : Drain β) n := by
  simp only [drainRank, if_true]
  split_ifs <;> omega

theorem drainRank_working_lt {β : Type*} (msg : β) (n : ℕ) :
    drainRank (.working msg) n < drainRank (.dequeuing : Drain β) n + 3 ∧
      drainRank (.reading : Drain β) n < drainRank (.working msg) n := by
  simp only [drainRank]
  split_ifs <;> omega

theorem remaining_step {s s' : ControlChannel τ α} {l : ControlStep τ α}
    (hl : startsNoSend l = true) (h : Stepped s l s') :
    s'.remaining < s.remaining := by
  cases h with
  | locked sender msg hfree => cases hl
  | enqueued sender number msg hholder =>
      simp only [remaining, sendRank, queue, counter, hholder, List.length_append,
        List.length_singleton]
      omega
  | queueFull sender number msg hholder =>
      simp only [remaining, sendRank, queue, counter, hholder]
      omega
  | signalled sender number msg hholder n hn =>
      have hrank := drainRank_le s.drain s.channel.channel.eventFD.counter n
      simp only [remaining, sendRank, queue, counter, hholder]
      omega
  | unlocked sender number msg hholder =>
      simp only [remaining, sendRank, queue, counter, hholder]
      omega
  | bound hdrain hbound =>
      have hrank := (drainRank_reading_lt (β := ℕ × α) s.counter).1
      simp only [counter] at hrank
      simp only [remaining, queue, counter, hdrain, hbound, Bool.false_eq_true,
        if_true, if_false]
      omega
  | readable hdrain hcounter =>
      have hrank := (drainRank_reading_lt (β := ℕ × α) s.counter).2 hcounter
      simp only [counter] at hrank
      simp only [remaining, queue, counter, hdrain]
      omega
  | signalRead hdrain =>
      have hrank := (drainRank_dequeuing_lt (β := ℕ × α) s.counter).1
      simp only [counter] at hrank
      simp only [remaining, queue, counter, hdrain]
      omega
  | dequeued msg rest hdrain hqueue =>
      have hlength : s.channel.channel.queue.length = rest.length + 1 :=
        congrArg List.length hqueue
      have hrank := (drainRank_working_lt msg s.counter).1
      simp only [counter] at hrank
      simp only [remaining, queue, counter, hdrain, hlength]
      omega
  | queueEmpty hdrain hqueue =>
      have hrank := (drainRank_dequeuing_lt (β := ℕ × α) s.counter).2
      simp only [counter] at hrank
      simp only [remaining, queue, counter, hdrain]
      omega
  | worked msg hdrain =>
      have hrank := (drainRank_working_lt msg s.counter).2
      simp only [counter] at hrank
      simp only [remaining, queue, counter, hdrain]
      omega

theorem exists_step_of_not_quiescent {s : ControlChannel τ α}
    (hquiet : ¬ (s.bound = true ∧ s.Quiescent)) :
    ∃ l s', startsNoSend l = true ∧ step s l = some s' := by
  cases hholder : s.holder with
  | some send =>
      obtain ⟨sender, number, msg, phase⟩ := send
      cases phase with
      | locked =>
          refine ⟨.tryEnqueue false,
            { s with holder := some ⟨sender, number, msg, .finished⟩ }, rfl, ?_⟩
          simp only [step, hholder]
          rfl
      | enqueued =>
          refine ⟨.signal,
            { s with
              channel := s.channel.signal.2
              holder := some ⟨sender, number, msg, .finished⟩ }, rfl, ?_⟩
          simp only [step, hholder]
      | finished =>
          refine ⟨.unlock, { s with channel := s.channel.unlock, holder := none },
            rfl, ?_⟩
          simp only [step, hholder]
  | none =>
      have hfree : s.eventThreadSends = false := by
        rw [eventThreadSends, hholder]
        rfl
      cases hdrain : s.drain with
      | reading =>
          refine ⟨.readSignal,
            { s with channel := s.channel.readSignal.2, drain := .dequeuing },
            rfl, ?_⟩
          simp only [step, hdrain, MPSCEventChannel.readSignal_eq]
      | dequeuing =>
          cases hqueue : s.channel.tryDequeue with
          | mk message channel =>
              refine ⟨.tryDequeue, { s with
                channel := channel
                drain := message.elim .idle .working }, rfl, ?_⟩
              simp only [step, hdrain, hqueue]
              cases message <;> rfl
      | working msg =>
          refine ⟨.work,
            { s with drain := .reading, executed := s.executed ++ [msg] }, rfl, ?_⟩
          simp only [step, hdrain, hfree, Bool.false_eq_true, if_false]
      | idle =>
          by_cases hbound : s.bound = true
          · have hcounter : s.counter ≠ 0 := fun hzero =>
              hquiet ⟨hbound, hholder, hdrain, hzero⟩
            refine ⟨.onReadable, { s with drain := .reading }, rfl, ?_⟩
            simp [step, hdrain, hbound, hcounter, hfree]
          · refine ⟨.bindControlChannel, { s with bound := true, drain := .reading },
              rfl, ?_⟩
            simp [step, hdrain, hbound, hfree]

/-- When no other send begins, everything comes to rest. -/
theorem exists_run_to_rest (s : ControlChannel τ α) :
    ∃ ls s', Meets step (fun _ l => startsNoSend l = true) s ls ∧
      run step s ls = some s' ∧ s'.Quiescent := by
  have hstep : ∀ (s : ControlChannel τ α) (l : ControlStep τ α)
      (s' : ControlChannel τ α), True → startsNoSend l = true →
      step s l = some s' → True ∧ s'.remaining < s.remaining :=
    fun _ _ _ _ hl h => ⟨trivial, remaining_step hl (stepped_of_step h)⟩
  have hprogress : ∀ s : ControlChannel τ α, True →
      ¬ (s.bound = true ∧ s.Quiescent) →
      ∃ l s', startsNoSend l = true ∧ step s l = some s' :=
    fun _ _ hquiet => exists_step_of_not_quiescent hquiet
  obtain ⟨ls, s', hm, hrun, -, hquiet⟩ :=
    exists_run_to_final hstep hprogress (s := s) trivial
  exact ⟨ls, s', hm, hrun, hquiet⟩

theorem accepted_step {s s' : ControlChannel τ α} {l : ControlStep τ α}
    (h : step s l = some s') : s.accepted <+: s'.accepted := by
  cases stepped_of_step h with
  | enqueued => exact List.prefix_append _ _
  | _ => exact List.prefix_rfl

/-- At rest, the queue is empty and all accepted messages have been worked on. -/
theorem executed_of_quiescent {s : ControlChannel τ α} (hawake : Awake s)
    (hordered : Ordered s) (hquiet : s.Quiescent) :
    s.queue = [] ∧ s.executed = s.accepted := by
  have hempty : s.queue = [] := by
    by_contra hqueue
    rcases hawake.wakes hqueue with hdrain | hcounter | hcomes
    · exact hdrain hquiet.drain
    · exact hcounter hquiet.counter
    · simp [signalComes, hquiet.holder] at hcomes
  refine ⟨hempty, ?_⟩
  have horder := hordered.order
  rw [inHand, hquiet.drain, hempty, List.append_nil, List.append_nil] at horder
  exact horder

/-- In every state of every run from a new channel: at rest the queue is empty and
every accepted message has been executed; what has been executed is at any time
that of the first messages accepted, each once; these are in the order in which
their sends have taken the lock; and if no other send begins, the event thread
comes to rest and has then executed all of them. -/
theorem executed_of_run (ls : List (ControlStep τ α)) (s : ControlChannel τ α)
    (h : run step {} ls = some s) :
    (s.Quiescent → s.queue = [] ∧ s.executed = s.accepted) ∧
      s.executed <+: s.accepted ∧
      (s.accepted.Pairwise fun a b => a.1 < b.1) ∧
      (∀ sent ∈ s.accepted, s.acquired[sent.1]? = some sent.2) ∧
      ∃ ls' s', Meets step (fun _ l => startsNoSend l = true) s ls' ∧
        run step s ls' = some s' ∧ s'.Quiescent ∧ s.accepted <+: s'.executed := by
  have hordered := ordered_run h
  refine ⟨executed_of_quiescent (awake_run h) hordered,
    ⟨s.inHand ++ s.queue, ?_⟩, hordered.increasing, hordered.acquired, ?_⟩
  · rw [← List.append_assoc]
    exact hordered.order
  obtain ⟨ls', s', hm, hrun, hquiet⟩ := exists_run_to_rest s
  have hall : run step {} (ls ++ ls') = some s' := by
    rw [run_append, h]
    exact hrun
  refine ⟨ls', s', hm, hrun, hquiet, ?_⟩
  rw [(executed_of_quiescent (awake_run hall) (ordered_run hall) hquiet).2]
  exact run_relation (R := fun s s' => s.accepted <+: s'.accepted)
    (fun _ => List.prefix_rfl) (fun _ _ _ => List.IsPrefix.trans)
    (fun _ _ _ hstep => accepted_step hstep) hrun

/-- Two threads send before the channel is bound, of which the second signals when
its message has been taken already, and the work of the first message sends a
third one. -/
def crossedSends : List (ControlStep ℕ String) :=
  [.lock (.thread 1) "begin", .tryEnqueue true, .signal, .unlock,
    .lock (.thread 2) "next", .tryEnqueue true,
    .bindControlChannel, .readSignal, .tryDequeue, .signal, .unlock,
    .lock .eventThread "last", .tryEnqueue true, .signal, .unlock, .work,
    .readSignal, .tryDequeue, .work, .readSignal, .tryDequeue, .work,
    .readSignal, .tryDequeue]

theorem executed_of_run_crossedSends :
    ∃ s, run step {} crossedSends = some s ∧
      s.executed = [(0, "begin"), (1, "next"), (2, "last")] ∧
      s.queue = [] ∧ s.executed = s.accepted := by
  have h : run step {} crossedSends = some
      { channel := { channel := { queue := [], eventFD := { counter := 0 } } }
        bound := true
        acquired := ["begin", "next", "last"]
        accepted := [(0, "begin"), (1, "next"), (2, "last")]
        executed := [(0, "begin"), (1, "next"), (2, "last")] } := rfl
  exact ⟨_, h, rfl, (executed_of_run crossedSends _ h).1 ⟨rfl, rfl, rfl⟩⟩

end ControlChannel

end Async

end Kclpp
