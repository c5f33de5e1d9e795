import Kclpp.Containers.FirstOf
import Kclpp.Containers.OrderedMap

/-!
# The data channels of an event context

A thread that has results for an event thread makes a channel and registers it with
the event context, which binds it: it adds a read event for the channel, tells the
sender that it has, and keeps the event in `dataChannels_`, by the thread of the
sender. A thread that registers a second channel is told the same, and the event of
that channel is freed with its handle, since the map keeps what it has.
`allArmed_iff` says which registrations leave every channel with its event.
-/

open Std OrderedMap FirstOf

namespace Kclpp

namespace Async

/-- `EventDataChannel`, by its number and the thread that sends on it. -/
structure EventDataChannel where
  number : ℕ
  senderID : ℕ
  deriving DecidableEq, Repr

/-- `EventContext::EventDataChannelHandle`, with the number of the read event. -/
structure EventDataChannelHandle where
  readEvent : ℕ
  channel : EventDataChannel
  deriving DecidableEq, Repr

/-- `EventContext`, with the read events that have been added and not been freed,
each with the channel it drains, the number of events made so far and the channels
that have been acknowledged. -/
structure EventContext where
  dataChannels : TreeMap ℕ EventDataChannelHandle := ∅
  readEvents : List (ℕ × EventDataChannel) := []
  created : ℕ := 0
  acked : List EventDataChannel := []

namespace EventContext

/-- `event_free`, from the destructor of a handle. -/
def freeReadEvent (ctx : EventContext) (readEvent : ℕ) : EventContext :=
  { ctx with readEvents := ctx.readEvents.filter fun event => event.1 ≠ readEvent }

/-- `EventContext::bindDataChannel`. The handle that is not inserted goes out of
scope with its event. -/
def bindDataChannel (ctx : EventContext) (channel : EventDataChannel) :
    EventContext :=
  let chanHandle : EventDataChannelHandle := ⟨ctx.created, channel⟩
  let bound : EventContext :=
    { ctx with
      created := ctx.created + 1
      readEvents := ctx.readEvents ++ [(chanHandle.readEvent, channel)]
      acked := ctx.acked ++ [channel]
      dataChannels := ctx.dataChannels.insertIfNew channel.senderID chanHandle }
  match lookup ctx.dataChannels channel.senderID with
  | none => bound
  | some _ => bound.freeReadEvent chanHandle.readEvent

/-- The drains that the event loop starts when the descriptor of a channel is
readable: one for each read event of the channel. -/
def onReadable (ctx : EventContext) (channel : EventDataChannel) :
    List EventDataChannel :=
  (ctx.readEvents.map Prod.snd).filter fun watched => watched = channel

/-- The channel has a read event, owned by its entry in the map. -/
def Armed (ctx : EventContext) (channel : EventDataChannel) : Prop :=
  ∃ handle, lookup ctx.dataChannels channel.senderID = some handle ∧
    handle.channel = channel ∧ (handle.readEvent, channel) ∈ ctx.readEvents

/-- What has been acknowledged is armed. -/
def AllArmed (ctx : EventContext) : Prop := ∀ channel ∈ ctx.acked, ctx.Armed channel

def bindAll (channels : List EventDataChannel) : EventContext :=
  channels.foldl bindDataChannel {}

/-- What holds of a context that has acknowledged `channels`: its map has the first
one of every thread, and the read events are those of its handles. -/
structure BoundTo (ctx : EventContext) (channels : List EventDataChannel) : Prop where
  acked : ctx.acked = channels
  kept : ∀ sender,
    (lookup ctx.dataChannels sender).map EventDataChannelHandle.channel =
      firstOf EventDataChannel.senderID sender channels
  owned : ∀ event channel, (event, channel) ∈ ctx.readEvents ↔
    lookup ctx.dataChannels channel.senderID = some ⟨event, channel⟩
  numbered : ∀ event ∈ ctx.readEvents, event.1 < ctx.created

theorem boundTo_nil : BoundTo {} [] where
  acked := rfl
  kept := by simp
  owned := by simp
  numbered := by simp

theorem BoundTo.bind_new {ctx : EventContext} {channels : List EventDataChannel}
    (h : ctx.BoundTo channels) {channel : EventDataChannel}
    (hnew : lookup ctx.dataChannels channel.senderID = none) :
    (ctx.bindDataChannel channel).BoundTo (channels ++ [channel]) := by
  unfold bindDataChannel
  rw [hnew]
  refine ⟨by rw [h.acked], fun sender => ?_, fun event other => ?_, ?_⟩
  · have hkept := h.kept sender
    rw [firstOf_append_singleton, lookup_insertIfNew]
    by_cases hsender : channel.senderID = sender
    · subst hsender
      rw [hnew] at hkept
      simp [hnew, ← hkept]
    · simp [hsender, hkept]
  · simp only [List.mem_append, List.mem_singleton, h.owned, lookup_insertIfNew, hnew,
      and_true, Prod.mk.injEq]
    by_cases hsender : channel.senderID = other.senderID
    · rw [if_pos hsender, ← hsender, hnew]
      simp [eq_comm]
    · rw [if_neg hsender]
      constructor
      · rintro (hold | ⟨-, rfl⟩)
        · exact hold
        · exact absurd rfl hsender
      · exact Or.inl
  · intro event hevent
    rcases List.mem_append.mp hevent with hold | hlast
    · exact Nat.lt_succ_of_lt (h.numbered event hold)
    · rw [List.mem_singleton.mp hlast]
      exact Nat.lt_succ_self _

/-- A channel whose sender has one already is acknowledged, and its event is freed
again. -/
theorem BoundTo.bind_again {ctx : EventContext} {channels : List EventDataChannel}
    (h : ctx.BoundTo channels) {channel : EventDataChannel}
    {handle : EventDataChannelHandle}
    (hfound : lookup ctx.dataChannels channel.senderID = some handle) :
    (ctx.bindDataChannel channel).BoundTo (channels ++ [channel]) := by
  have hsame : ∀ sender, lookup (ctx.dataChannels.insertIfNew channel.senderID
      ⟨ctx.created, channel⟩) sender = lookup ctx.dataChannels sender := by
    intro sender
    simp [hfound]
  have hevents : (ctx.readEvents ++ [(ctx.created, channel)]).filter
      (fun event => event.1 ≠ ctx.created) = ctx.readEvents := by
    rw [List.filter_append, List.filter_eq_self.mpr]
    · simp
    · intro event hevent
      simpa using (h.numbered event hevent).ne
  unfold bindDataChannel
  rw [hfound]
  dsimp only [freeReadEvent]
  rw [hevents]
  refine ⟨by rw [h.acked], fun sender => ?_, fun event other => ?_, ?_⟩
  · have hfirst : firstOf EventDataChannel.senderID channel.senderID channels ≠
        none := by
      rw [← h.kept, hfound]
      simp
    rw [hsame, h.kept, firstOf_append_singleton, if_neg]
    rintro ⟨rfl, hnone⟩
    exact hfirst hnone
  · rw [hsame]
    exact h.owned event other
  · intro event hevent
    exact Nat.lt_succ_of_lt (h.numbered event hevent)

theorem boundTo_bindAll (channels : List EventDataChannel) :
    (bindAll channels).BoundTo channels := by
  induction channels using List.reverseRecOn with
  | nil => exact boundTo_nil
  | append_singleton channels channel ih =>
      rw [bindAll, List.foldl_append, List.foldl_cons, List.foldl_nil, ← bindAll]
      cases hfound : lookup (bindAll channels).dataChannels channel.senderID with
      | none => exact ih.bind_new hfound
      | some handle => exact ih.bind_again hfound

theorem BoundTo.armed_iff {ctx : EventContext} {channels : List EventDataChannel}
    (h : ctx.BoundTo channels) (channel : EventDataChannel) :
    ctx.Armed channel ↔
      firstOf EventDataChannel.senderID channel.senderID channels =
        some channel := by
  rw [← h.kept, Option.map_eq_some_iff]
  refine exists_congr fun handle => and_congr_right fun hfound => ?_
  refine and_iff_left_of_imp ?_
  rintro rfl
  exact (h.owned _ _).mpr hfound

theorem BoundTo.onReadable_iff {ctx : EventContext} {channels : List EventDataChannel}
    (h : ctx.BoundTo channels) (channel : EventDataChannel) :
    channel ∈ ctx.onReadable channel ↔ ctx.Armed channel := by
  simp only [onReadable, List.mem_filter, List.mem_map, Prod.exists,
    exists_eq_right, decide_true, and_true]
  constructor
  · rintro ⟨event, hevent⟩
    exact ⟨⟨event, channel⟩, (h.owned _ _).mp hevent, rfl, hevent⟩
  · rintro ⟨handle, -, rfl, hevent⟩
    exact ⟨_, hevent⟩

/-- After any registrations, every acknowledged channel is armed, and drained when
it is readable, exactly when no thread has registered two different channels. -/
theorem allArmed_iff (channels : List EventDataChannel) :
    (∀ channel ∈ (bindAll channels).acked, (bindAll channels).Armed channel ∧
        channel ∈ (bindAll channels).onReadable channel) ↔
      ∀ channel ∈ channels, ∀ other ∈ channels,
        channel.senderID = other.senderID → channel = other := by
  have h := boundTo_bindAll channels
  rw [h.acked]
  simp only [h.onReadable_iff, and_self, h.armed_iff]
  refine Iff.trans ?_ (forall_firstOf_iff EventDataChannel.senderID id channels)
  refine forall₂_congr fun channel hmem => ?_
  obtain ⟨first, hfirst⟩ := exists_firstOf EventDataChannel.senderID hmem
  rw [hfirst]
  simp

/-- One pool worker registers a channel for each of two threads that it serves. The
second channel is acknowledged, and nothing drains it any more. -/
theorem not_allArmed_sample :
    let first : EventDataChannel := ⟨0, 7⟩
    let second : EventDataChannel := ⟨1, 7⟩
    let ctx := bindAll [first, second]
    ctx.acked = [first, second] ∧ ctx.onReadable second = [] ∧
      ¬ ctx.Armed second := by
  refine ⟨by decide +kernel, by decide +kernel, ?_⟩
  rw [(boundTo_bindAll _).armed_iff]
  decide

end EventContext

end Async

end Kclpp
