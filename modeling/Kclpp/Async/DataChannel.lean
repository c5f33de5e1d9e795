import Kclpp.Async.Queues.SPSCEventChannel
import Kclpp.Transition.Run

/-!
# Draining a data channel

One sender and the event thread around one data channel. The sender's `trySend`
is two steps, and so is every `tryRead` of `EventContext::drainDataChannel`,
which runs when the channel is bound and, after that, whenever its event file
descriptor is readable and the event thread is idle. `accepted` and `executed`
record what the queue has taken and what work has been done, in order.

A read takes one message but all signals. `signals` counts the signals that
still stand for a message, and a message without one is stranded:
`drained_iff` says when there is none.
-/

namespace Kclpp

namespace Async

open Queues

open Transition (run Meets)

/-- Where the event thread is in `EventContext::drainDataChannel`. -/
inductive Drain (α : Type*) where
  | idle
  | reading
  | dequeuing
  | working (msg : α)
  deriving DecidableEq

/-- The channel, the sender and the event thread, with the messages that the
queue has accepted and those whose work has been executed. -/
structure DataChannel (α : Type*) where
  channel : SPSCEventChannel α := {}
  sending : Bool := false
  bound : Bool := false
  drain : Drain α := .idle
  accepted : List α := []
  executed : List α := []

inductive ChannelStep (α : Type*) where
  | tryEnqueue (hasRoom : Bool) (msg : α)
  | signal
  | bindDataChannel
  | onReadable
  | readSignal
  | tryDequeue
  | work
  deriving DecidableEq

namespace DataChannel

def step {α : Type*} (s : DataChannel α) : ChannelStep α → Option (DataChannel α)
  | .tryEnqueue hasRoom msg =>
      if s.sending then none
      else
        match s.channel.tryEnqueue hasRoom msg with
        | (true, channel) =>
            some { s with
              channel := channel
              sending := true
              accepted := s.accepted ++ [msg] }
        | (false, channel) => some { s with channel := channel }
  | .signal =>
      if s.sending then
        some { s with channel := s.channel.signal.2, sending := false }
      else none
  | .bindDataChannel =>
      match s.drain with
      | .idle =>
          if s.bound then none
          else some { s with bound := true, drain := .reading }
      | _ => none
  | .onReadable =>
      match s.drain with
      | .idle =>
          if s.bound ∧ s.channel.eventFD.counter ≠ 0 then
            some { s with drain := .reading }
          else none
      | _ => none
  | .readSignal =>
      match s.drain with
      | .reading =>
          match s.channel.readSignal with
          | (.ok (), channel) =>
              some { s with channel := channel, drain := .dequeuing }
          | (.error _, channel) =>
              some { s with channel := channel, drain := .idle }
      | _ => none
  | .tryDequeue =>
      match s.drain with
      | .dequeuing =>
          match s.channel.tryDequeue with
          | (some msg, channel) =>
              some { s with channel := channel, drain := .working msg }
          | (none, channel) =>
              some { s with channel := channel, drain := .idle }
      | _ => none
  | .work =>
      match s.drain with
      | .working msg =>
          some { s with drain := .reading, executed := s.executed ++ [msg] }
      | _ => none

/-- No send is in progress, no drain is running and the counter is zero. -/
structure Quiescent {α : Type*} (s : DataChannel α) : Prop where
  sending : s.sending = false
  drain : s.drain = .idle
  counter : s.channel.eventFD.counter = 0

def inHand {α : Type*} (s : DataChannel α) : List α :=
  match s.drain with
  | .working msg => [msg]
  | _ => []

/-- The signals that stand for a message: those in the counter, the one that a
send is about to give and the one that a read has just taken. -/
def signals {α : Type*} (s : DataChannel α) : ℕ :=
  s.channel.eventFD.counter + (if s.sending then 1 else 0) +
    match s.drain with
    | .dequeuing => 1
    | _ => 0

/-- The step is not a read that takes more than one signal. -/
def readsOneSignal {α : Type*} (s : DataChannel α) : ChannelStep α → Bool
  | .readSignal => s.channel.eventFD.counter ≤ 1
  | _ => true

inductive Stepped {α : Type*} (s : DataChannel α) :
    ChannelStep α → DataChannel α → Prop
  | enqueued (msg : α) (hsending : s.sending = false) :
      Stepped s (.tryEnqueue true msg)
        { s with
          channel := { s.channel with queue := s.channel.queue ++ [msg] }
          sending := true
          accepted := s.accepted ++ [msg] }
  | queueFull (msg : α) : Stepped s (.tryEnqueue false msg) s
  | signalled (hsending : s.sending = true) :
      Stepped s .signal
        { s with
          channel := { s.channel with
            eventFD := { counter := s.channel.eventFD.counter + 1 } }
          sending := false }
  | saturated (hsending : s.sending = true)
      (hcounter : EventFD.maxCounter ≤ s.channel.eventFD.counter) :
      Stepped s .signal { s with sending := false }
  | bound (hdrain : s.drain = .idle) :
      Stepped s .bindDataChannel { s with bound := true, drain := .reading }
  | readable (hdrain : s.drain = .idle) :
      Stepped s .onReadable { s with drain := .reading }
  | signalRead (hdrain : s.drain = .reading)
      (hcounter : s.channel.eventFD.counter ≠ 0) :
      Stepped s .readSignal
        { s with
          channel := { s.channel with eventFD := { counter := 0 } }
          drain := .dequeuing }
  | notReady (hdrain : s.drain = .reading)
      (hcounter : s.channel.eventFD.counter = 0) :
      Stepped s .readSignal { s with drain := .idle }
  | dequeued (msg : α) (rest : List α) (hdrain : s.drain = .dequeuing)
      (hqueue : s.channel.queue = msg :: rest) :
      Stepped s .tryDequeue
        { s with
          channel := { s.channel with queue := rest }
          drain := .working msg }
  | queueEmpty (hdrain : s.drain = .dequeuing) (hqueue : s.channel.queue = []) :
      Stepped s .tryDequeue { s with drain := .idle }
  | worked (msg : α) (hdrain : s.drain = .working msg) :
      Stepped s .work
        { s with drain := .reading, executed := s.executed ++ [msg] }

theorem stepped_of_step {α : Type*} {s s' : DataChannel α} {l : ChannelStep α}
    (h : step s l = some s') : Stepped s l s' := by
  cases l with
  | tryEnqueue hasRoom msg =>
      simp only [step] at h
      split_ifs at h with hsending
      cases hasRoom with
      | false =>
          cases h
          exact Stepped.queueFull msg
      | true =>
          cases h
          exact Stepped.enqueued msg (Bool.eq_false_iff.mpr hsending)
  | signal =>
      simp only [step, SPSCEventChannel.signal, EventFD.write_one] at h
      split_ifs at h with hsending hcounter
      · cases h
        exact Stepped.signalled hsending
      · cases h
        exact Stepped.saturated hsending (by omega)
  | bindDataChannel =>
      simp only [step] at h
      cases hdrain : s.drain <;> rw [hdrain] at h <;> try cases h
      split_ifs at h
      cases h
      exact Stepped.bound hdrain
  | onReadable =>
      simp only [step] at h
      cases hdrain : s.drain <;> rw [hdrain] at h <;> try cases h
      split_ifs at h
      cases h
      exact Stepped.readable hdrain
  | readSignal =>
      simp only [step] at h
      cases hdrain : s.drain <;> rw [hdrain] at h <;> try cases h
      by_cases hcounter : s.channel.eventFD.counter = 0
      · simp only [SPSCEventChannel.readSignal, EventFD.read, hcounter, if_true,
          Except.map] at h
        cases h
        exact Stepped.notReady hdrain hcounter
      · simp only [SPSCEventChannel.readSignal, EventFD.read, hcounter, if_false,
          Except.map] at h
        cases h
        exact Stepped.signalRead hdrain hcounter
  | tryDequeue =>
      simp only [step] at h
      cases hdrain : s.drain <;> rw [hdrain] at h <;> try cases h
      cases hqueue : s.channel.queue with
      | nil =>
          simp only [SPSCEventChannel.tryDequeue, hqueue] at h
          cases h
          exact Stepped.queueEmpty hdrain hqueue
      | cons msg rest =>
          simp only [SPSCEventChannel.tryDequeue, hqueue] at h
          cases h
          exact Stepped.dequeued msg rest hdrain hqueue
  | work =>
      simp only [step] at h
      cases hdrain : s.drain with
      | working msg =>
          rw [hdrain] at h
          cases h
          exact Stepped.worked msg hdrain
      | _ =>
          rw [hdrain] at h
          cases h

/-- Every signal stands for a message in the queue, and the messages that were
accepted are those executed, the one in hand and those in the queue, in order. -/
structure Accounted {α : Type*} (s : DataChannel α) : Prop where
  signals_le : s.signals ≤ s.channel.queue.length
  order : s.executed ++ s.inHand ++ s.channel.queue = s.accepted

/-- A step keeps the account, takes no message from the queue without a signal
for it, and loses a signal when it is a read of more than one. -/
theorem accounted_step {α : Type*} {s s' : DataChannel α} {l : ChannelStep α}
    (hs : Accounted s) (h : Stepped s l s') :
    Accounted s' ∧
      s.channel.queue.length + s'.signals ≤ s'.channel.queue.length + s.signals ∧
      (s.readsOneSignal l = false →
        s.channel.queue.length + s'.signals < s'.channel.queue.length + s.signals) := by
  obtain ⟨hle, horder⟩ := hs
  cases h with
  | enqueued msg hsending =>
      refine ⟨⟨?_, ?_⟩, ?_, fun hread => by cases hread⟩
      · simp only [signals, hsending] at hle ⊢
        simp only [List.length_append, List.length_singleton, if_true]
        omega
      · simp only [inHand] at horder ⊢
        rw [← horder, List.append_assoc, List.append_assoc, List.append_assoc]
      · simp only [signals, hsending, List.length_append, List.length_singleton,
          if_true]
        omega
  | queueFull msg => exact ⟨⟨hle, horder⟩, le_rfl, fun hread => by cases hread⟩
  | signalled hsending | saturated hsending =>
      simp only [signals, hsending, if_true] at hle
      refine ⟨⟨?_, horder⟩, ?_, fun hread => by cases hread⟩
      · simp only [signals, Bool.false_eq_true, if_false]
        omega
      · simp only [signals, hsending, Bool.false_eq_true, if_false, if_true]
        omega
  | bound hdrain | readable hdrain =>
      simp only [signals, inHand, hdrain] at hle horder
      refine ⟨⟨hle, horder⟩, ?_, fun hread => by cases hread⟩
      simp [signals, hdrain]
  | signalRead hdrain hcounter =>
      simp only [signals, inHand, hdrain] at hle horder
      refine ⟨⟨?_, horder⟩, ?_, ?_⟩
      · simp only [signals]
        omega
      · simp only [signals, hdrain]
        omega
      · intro hread
        simp only [readsOneSignal, decide_eq_false_iff_not, not_le] at hread
        simp only [signals, hdrain]
        omega
  | notReady hdrain hcounter =>
      simp only [signals, inHand, hdrain] at hle horder
      refine ⟨⟨hle, horder⟩, ?_, ?_⟩
      · simp [signals, hdrain]
      · intro hread
        simp [readsOneSignal, hcounter] at hread
  | dequeued msg rest hdrain hqueue =>
      simp only [signals, inHand, hdrain, hqueue, List.length_cons] at hle horder
      refine ⟨⟨?_, ?_⟩, ?_, fun hread => by cases hread⟩
      · simp only [signals]
        omega
      · simpa [inHand] using horder
      · simp only [signals, hdrain, hqueue, List.length_cons]
        omega
  | queueEmpty hdrain hqueue =>
      simp only [signals, hdrain, hqueue, List.length_nil] at hle
      omega
  | worked msg hdrain =>
      simp only [signals, inHand, hdrain] at hle horder
      refine ⟨⟨hle, ?_⟩, ?_, fun hread => by cases hread⟩
      · simpa [inHand] using horder
      · simp [signals, hdrain]

/-- Along a run no signal is gained, and one is lost where a read takes more
than one. -/
theorem accounted_run {α : Type*} {s s' : DataChannel α}
    {ls : List (ChannelStep α)} (hs : Accounted s)
    (h : run step s ls = some s') :
    Accounted s' ∧
      s.channel.queue.length + s'.signals ≤ s'.channel.queue.length + s.signals ∧
      (¬ Meets step (fun s l => s.readsOneSignal l = true) s ls →
        s.channel.queue.length + s'.signals < s'.channel.queue.length + s.signals) := by
  induction ls generalizing s with
  | nil =>
      cases h
      exact ⟨hs, le_rfl, fun hnot => absurd trivial hnot⟩
  | cons l ls ih =>
      obtain ⟨t, ht, hrun⟩ :=
        (Transition.run_cons_eq_some_iff step s s' l ls).mp h
      obtain ⟨haccount, hle, hlost⟩ := accounted_step hs (stepped_of_step ht)
      obtain ⟨haccount', hle', hlost'⟩ := ih haccount hrun
      refine ⟨haccount', by omega, fun hnot => ?_⟩
      by_cases hread : s.readsOneSignal l = true
      · have hrest := hlost' fun hmeets => hnot ⟨hread, fun t' ht' => by
          rw [ht] at ht'
          cases ht'
          exact hmeets⟩
        omega
      · have hfirst := hlost (Bool.eq_false_iff.mpr hread)
        omega

/-- Every message has a signal, unless the counter is at two or more, where no
read that takes one signal can bring it down. -/
def Covered {α : Type*} (s : DataChannel α) : Prop :=
  s.channel.queue.length = s.signals ∨ 2 ≤ s.channel.eventFD.counter

theorem covered_step {α : Type*} {s s' : DataChannel α} {l : ChannelStep α}
    (hs : Covered s) (hread : s.readsOneSignal l = true) (h : Stepped s l s') :
    Covered s' := by
  unfold Covered at hs ⊢
  cases h with
  | enqueued msg hsending =>
      simp only [signals, hsending, Bool.false_eq_true, if_false, if_true,
        List.length_append, List.length_singleton] at hs ⊢
      omega
  | queueFull msg => exact hs
  | signalled hsending =>
      simp only [signals, hsending, Bool.false_eq_true, if_false, if_true] at hs ⊢
      omega
  | saturated hsending hcounter =>
      right
      have hmax : 2 ≤ EventFD.maxCounter := by decide
      exact hmax.trans hcounter
  | bound hdrain =>
      simp only [signals, hdrain] at hs ⊢
      exact hs
  | readable hdrain =>
      simp only [signals, hdrain] at hs ⊢
      exact hs
  | signalRead hdrain hcounter =>
      simp only [readsOneSignal, decide_eq_true_eq] at hread
      simp only [signals, hdrain] at hs ⊢
      omega
  | notReady hdrain hcounter =>
      simp only [signals, hdrain] at hs ⊢
      exact hs
  | dequeued msg rest hdrain hqueue =>
      simp only [signals, hdrain, hqueue, List.length_cons] at hs ⊢
      omega
  | queueEmpty hdrain hqueue =>
      simp only [signals, hdrain, hqueue, List.length_nil] at hs ⊢
      omega
  | worked msg hdrain =>
      simp only [signals, hdrain] at hs ⊢
      exact hs

theorem covered_run {α : Type*} {s s' : DataChannel α}
    {ls : List (ChannelStep α)} (hs : Covered s)
    (hm : Meets step (fun s l => s.readsOneSignal l = true) s ls)
    (h : run step s ls = some s') : Covered s' :=
  Transition.run_invariant_of_meets
    (fun _ _ _ hs hread hstep => covered_step hs hread (stepped_of_step hstep))
    hs hm h

theorem accounted_new {α : Type*} : Accounted ({} : DataChannel α) :=
  ⟨le_rfl, rfl⟩

theorem accepted_of_quiescent {α : Type*} {s : DataChannel α}
    (hs : Accounted s) (hquiet : s.Quiescent) :
    s.executed ++ s.channel.queue = s.accepted := by
  have horder := hs.order
  rw [inHand, hquiet.drain, List.append_nil] at horder
  exact horder

/-- In every state of every run from a new channel the work that has been
executed is that of the first messages accepted, each once and in order. When a
run comes to rest, the queue is empty and all accepted messages have been worked
on exactly if no read of the run took more than one signal. -/
theorem drained_iff {α : Type*} (ls : List (ChannelStep α)) (s : DataChannel α)
    (h : run step {} ls = some s) :
    s.executed <+: s.accepted ∧
      (s.Quiescent →
        ((s.channel.queue = [] ∧ s.executed = s.accepted) ↔
          Meets step (fun s l => s.readsOneSignal l = true) {} ls)) := by
  obtain ⟨haccount, -, hlost⟩ := accounted_run accounted_new h
  refine ⟨⟨s.inHand ++ s.channel.queue, ?_⟩, fun hquiet => ?_⟩
  · rw [← List.append_assoc]
    exact haccount.order
  have hsignals : s.signals = 0 := by
    simp [signals, hquiet.counter, hquiet.sending, hquiet.drain]
  constructor
  · rintro ⟨hempty, -⟩
    by_contra hnot
    have hlt := hlost hnot
    rw [hempty, hsignals] at hlt
    cases hlt
  · intro hmeets
    have hempty : s.channel.queue = [] := by
      rcases covered_run (Or.inl rfl) hmeets h with hcovered | hcounter
      · rw [hsignals] at hcovered
        exact List.length_eq_zero_iff.mp hcovered
      · rw [hquiet.counter] at hcounter
        cases hcounter
    refine ⟨hempty, ?_⟩
    rw [← accepted_of_quiescent haccount hquiet, hempty, List.append_nil]

def coalescedSends : List (ChannelStep ℕ) :=
  [.bindDataChannel, .readSignal, .tryEnqueue true 1, .signal,
    .tryEnqueue true 2, .signal, .onReadable, .readSignal, .tryDequeue, .work,
    .readSignal]

theorem drained_iff_coalescedSends :
    ∃ s, run step ({} : DataChannel ℕ) coalescedSends = some s ∧
      ((s.channel.queue = [] ∧ s.executed = s.accepted) ↔
        Meets step (fun s l => s.readsOneSignal l = true) {} coalescedSends) :=
  ⟨_, rfl, (drained_iff coalescedSends _ rfl).2 ⟨rfl, rfl, rfl⟩⟩

/-- Two messages are sent before the event thread drains. The drain takes both
signals with its first message; it comes to rest with the counter at zero and
the second message in the queue, and nothing wakes it. -/
theorem coalescedSends_stranded :
    ∃ s, run step ({} : DataChannel ℕ) coalescedSends = some s ∧
      s.Quiescent ∧ s.channel.queue = [2] ∧ s.executed = [1] ∧
      s.accepted = [1, 2] ∧ step s .onReadable = none :=
  ⟨_, rfl, ⟨rfl, rfl, rfl⟩, rfl, rfl, rfl, rfl⟩

end DataChannel

end Async

end Kclpp
