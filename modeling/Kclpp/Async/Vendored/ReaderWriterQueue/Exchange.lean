import Kclpp.Async.Vendored.ReaderWriterQueue.Construction

/-!
# What the queue hands over

In every run, whatever the order in which the steps of the two threads come, the
elements that the writer has put in are those that the reader has got, in the same
order, followed by what is in the queue. No assertion of the code fails, an object is
constructed only in raw memory and taken only where there is one. A call that comes
back with nothing has seen the queue empty at some moment, and a call that comes back
with an element has the one that a `peek` has shown before.
-/

namespace Kclpp

namespace Async

namespace Vendored

namespace Moodycamel

open CircularBuffer Transition

variable {α : Type*}

namespace System

def initial (maxBlockSize maxSize : ℕ) : System α :=
  { queue := ReaderWriterQueue.create maxBlockSize maxSize }

def Valid (s : System α) : Prop := ∃ used free, s.Inv used free

def Balanced (s : System α) : Prop := s.accepted = s.pulled ++ s.queue.contents

theorem initial_valid {maxBlockSize maxSize : ℕ} (h : Sizes maxBlockSize maxSize) :
    (initial maxBlockSize maxSize : System α).Valid := by
  obtain ⟨count, size, k, heq, hsize, -⟩ := h.blocksFor_spec
  exact ⟨_, _, (ReaderWriterQueue.create_new heq).inv hsize⟩

theorem initial_contents {maxBlockSize maxSize : ℕ} (h : Sizes maxBlockSize maxSize) :
    (initial maxBlockSize maxSize : System α).queue.contents = [] := by
  obtain ⟨count, size, k, heq, hsize, -⟩ := h.blocksFor_spec
  have hnew := ReaderWriterQueue.create_new (α := α) heq
  have hinv := hnew.inv hsize
  have hheap : (ReaderWriterQueue.create maxBlockSize maxSize : ReaderWriterQueue α).heap 1 =
      _ := hnew.heap 1 le_rfl (Nat.succ_pos count)
  have hempty := (hinv.sound 1 (List.mem_append_left _ (List.mem_singleton_self 1)))
  dsimp only at hempty
  have hnil := hempty.elements_eq_nil (by rw [hheap]; rfl)
  change (ReaderWriterQueue.create maxBlockSize maxSize : ReaderWriterQueue α).contents = []
  rw [hinv.laid.contents_eq, List.flatMap_singleton]
  exact hnil

/-- A step of the reader or a step of the writer. -/
theorem pulls_or_pushes {maxBlockSize : ℕ} {s s' : System α} {l : Label α}
    (hs : s.Valid) (hstep : s.step maxBlockSize l = some s') :
    s.Pulls s' ∨ s.Pushes s' := by
  obtain ⟨used, free, h⟩ := hs
  cases l with
  | enqueue mode element =>
      cases hpc : s.producer with
      | idle =>
          simp only [step, hpc, Option.some_inj] at hstep
          exact .inr (hstep ▸ h.pushes_beginEnqueue mode element hpc)
      | _ =>
          simp only [step, hpc] at hstep
          cases hstep
  | producer => exact .inr (h.pushes_produce hstep)
  | outOfMemory => exact .inr (h.pushes_failAllocation hstep)
  | dequeue call =>
      cases hpc : s.consumer with
      | idle =>
          simp only [step, hpc, Option.some_inj] at hstep
          exact .inl (hstep ▸ h.pulls_beginDequeue call hpc)
      | _ =>
          simp only [step, hpc] at hstep
          cases hstep
  | consumer => exact .inl (h.pulls_consume hstep)

theorem step_valid {maxBlockSize : ℕ} (s : System α) (l : Label α) (s' : System α)
    (hs : s.Valid) (hstep : s.step maxBlockSize l = some s') : s'.Valid := by
  rcases pulls_or_pushes hs hstep with h | h
  · exact h.1
  · exact h.1

theorem step_balanced {maxBlockSize : ℕ} {s s' : System α} {l : Label α}
    (hs : s.Valid) (hb : s.Balanced) (hstep : s.step maxBlockSize l = some s') :
    s'.Balanced := by
  rcases pulls_or_pushes hs hstep with ⟨-, -, hoffers, hpulled⟩ | ⟨-, hconsumer, hanswers,
    l, haccepted, hcontents⟩
  · rw [Balanced, hpulled, accepted, hoffers]
    exact hb
  · have hsame : s'.pulled = s.pulled := by
      rw [pulled, pulled, removed, removed, hconsumer, hanswers]
    rw [Balanced, haccepted, hcontents, hsame, ← List.append_assoc, hb]

theorem valid_of_run {maxBlockSize maxSize : ℕ} (h : Sizes maxBlockSize maxSize)
    {ls : List (Label α)} {s : System α}
    (hr : run (step maxBlockSize) (initial maxBlockSize maxSize) ls = some s) :
    s.Valid :=
  run_invariant step_valid (initial_valid h) hr

theorem balanced_of_run {maxBlockSize maxSize : ℕ} (h : Sizes maxBlockSize maxSize)
    {ls : List (Label α)} {s : System α}
    (hr : run (step maxBlockSize) (initial maxBlockSize maxSize) ls = some s) :
    s.Balanced := by
  have hstart : (initial maxBlockSize maxSize : System α).Balanced := by
    rw [Balanced, initial_contents h]
    rfl
  refine (run_invariant (I := fun s => s.Valid ∧ s.Balanced) ?_
    ⟨initial_valid h, hstart⟩ hr).2
  exact fun s l s' hs hstep => ⟨step_valid s l s' hs.1 hstep, step_balanced hs.1 hs.2 hstep⟩

/-- In every run, the elements that the writer's calls have put in are those that the
reader's calls have got, then the one the reader has in hand, then the contents of the
queue: in this order, none is lost, doubled or overtaken. -/
theorem accepted_eq_of_run {maxBlockSize maxSize : ℕ} (h : Sizes maxBlockSize maxSize)
    {ls : List (Label α)} {s : System α}
    (hr : run (step maxBlockSize) (initial maxBlockSize maxSize) ls = some s) :
    s.accepted = s.removed ++ s.consumer.inHand ++ s.queue.contents :=
  balanced_of_run h hr

theorem sizes_two_one : Sizes 2 1 :=
  ⟨Nat.one_pos, ⟨0, rfl⟩, by norm_num⟩

/-- A run in which the second element makes a second block. -/
def secondBlock : List (Label ℕ) :=
  [.enqueue .canAlloc 7, .producer, .producer, .enqueue .canAlloc 8, .producer,
    .producer, .producer, .producer, .dequeue .pop, .producer, .consumer]

theorem exists_run_secondBlock :
    ∃ s, run (step 2) (initial 2 1) secondBlock = some s :=
  Option.isSome_iff_exists.mp rfl

/-- The same run, until the first element has been taken. -/
def firstTaken : List (Label ℕ) :=
  [.enqueue .canAlloc 7, .producer, .producer, .enqueue .canAlloc 8, .producer,
    .producer, .producer, .producer, .dequeue .pop, .producer, .consumer, .consumer,
    .consumer]

theorem exists_run_firstTaken :
    ∃ s, run (step 2) (initial 2 1) firstTaken = some s :=
  Option.isSome_iff_exists.mp rfl

theorem accepted_eq_firstTaken :
    ∃ s, run (step 2) (initial 2 1) firstTaken = some s ∧ s.removed = [7] ∧
      s.accepted = s.removed ++ s.consumer.inHand ++ s.queue.contents := by
  obtain ⟨s, hs⟩ := exists_run_firstTaken
  have hremoved : (run (step 2) (initial 2 1) firstTaken).map removed = some [7] := rfl
  rw [hs, Option.map_some, Option.some_inj] at hremoved
  exact ⟨s, hs, hremoved, accepted_eq_of_run sizes_two_one hs⟩

section Proper

/-- What the code asserts where the writer stands, and that an object is constructed in
a slot of the block that is raw. -/
def ProperProducer (s : System α) : Prop :=
  match s.producer with
  | .construct _ b i _ | .constructNext _ b i =>
      i < (s.queue.heap b).size ∧ (s.queue.heap b).data i = none
  | .reloadNextFront _ b =>
      (s.queue.heap (s.queue.heap b).next).front =
        (s.queue.heap (s.queue.heap b).next).tail
  | .linkBlock _ _ n => (s.queue.heap n).front = 0
  | _ => True

/-- What the code asserts where the reader stands, and that the slot it takes from is
in the block and holds an object. -/
def ProperConsumer (s : System α) : Prop :=
  match s.consumer with
  | .reloadNextTail _ b nextBlockFront => nextBlockFront ≠ (s.queue.heap b).tail
  | .take _ b i =>
      i < (s.queue.heap b).size ∧ ((s.queue.heap b).data i).isSome = true
  | _ => True

theorem Inv.properProducer {s : System α} {used free : List Pointer}
    (h : s.Inv used free) : s.ProperProducer := by
  have hraw : ∀ b ∈ used ++ free, (∀ i, ¬ s.producer.Constructed b i) →
      (s.queue.heap b).tail < (s.queue.heap b).size ∧
        (s.queue.heap b).data (s.queue.heap b).tail = none := by
    intro b hb hconstructed
    have hsound := h.sound b hb
    refine ⟨hsound.tail, ?_⟩
    have hslot := h.slots b hb _ hsound.tail
    rw [Holds, or_iff_left (hconstructed _)] at hslot
    rw [← Option.not_isSome_iff_eq_none, hslot]
    exact fun hmem => tail_notMem_slots hsound.front hsound.tail hmem.1
  have hproducer := h.producer
  unfold ProperProducer
  cases hpc : s.producer with
  | construct element b blockTail nextBlockTail =>
      rw [hpc] at hproducer
      obtain ⟨rfl, rfl, -⟩ := hproducer
      refine hraw _ h.mem_ring_tailBlock ?_
      rw [hpc]
      exact fun _ => id
  | constructNext element b nextBlockTail =>
      rw [hpc] at hproducer
      obtain ⟨-, hb, rfl, -⟩ := hproducer
      refine hraw b (List.mem_append_right _ (List.mem_of_head? hb)) ?_
      rw [hpc]
      exact fun _ => id
  | reloadNextFront element b =>
      rw [hpc] at hproducer
      obtain ⟨-, -, hb⟩ := hproducer
      refine h.spare _ (List.mem_of_head? hb) ?_
      rw [hpc]
      exact id
  | linkBlock element b n =>
      rw [hpc] at hproducer
      obtain ⟨-, -, -, -, -, hfresh⟩ := hproducer
      exact hfresh.front
  | _ => trivial

theorem Inv.ne_frontBlock {s : System α} {used free : List Pointer}
    (h : s.Inv used free) {b : Pointer} (hb : used[1]? = some b) :
    b ≠ s.queue.frontBlock := by
  obtain ⟨rest, hused⟩ := h.laid.used_eq_of_getElem?_one hb
  have hnodup := (List.nodup_append.mp h.laid.nodup).1
  rw [hused] at hnodup
  exact fun heq => (List.nodup_cons.mp hnodup).1 (heq ▸ List.mem_cons_self)

/-- Where the reader takes, there is an object, and it is the first one of the
queue. -/
theorem Inv.take_spec {s : System α} {used free : List Pointer} (h : s.Inv used free)
    {call : Call} {b : Pointer} {i : ℕ} (hpc : s.consumer = .take call b i) :
    i < (s.queue.heap b).size ∧ ∃ x, (s.queue.heap b).data i = some x ∧
      s.queue.contents.head? = some x := by
  have htaken : ∀ c i, ¬ s.consumer.Taken c i := by
    rw [hpc]
    exact fun _ _ => id
  have hconsumer := h.consumer
  rw [hpc] at hconsumer
  obtain ⟨rfl, hcase⟩ := hconsumer
  rcases hcase with ⟨rfl, hlocal⟩ | ⟨-, hb, hempty⟩
  · have hsound := h.sound _ h.mem_ring_frontBlock
    have hne := hsound.front_ne_tail hlocal
    obtain ⟨x, hx⟩ := h.exists_data_front h.mem_ring_frontBlock hne (htaken _)
    obtain ⟨rest, -, -, hcontents⟩ := h.contents_eq_append
    refine ⟨hsound.front, x, hx, ?_⟩
    rw [hcontents, hsound.elements_eq_cons hne hx]
    rfl
  · have hused := List.mem_of_getElem? hb
    have hmem := List.mem_append_left free hused
    have hne := h.front_ne_tail hused (h.ne_frontBlock hb)
    have hsound := h.sound b hmem
    obtain ⟨x, hx⟩ := h.exists_data_front hmem hne (htaken _)
    obtain ⟨rest, hlist⟩ := h.laid.used_eq_of_getElem?_one hb
    refine ⟨hsound.front, x, hx, ?_⟩
    have hnil := (h.sound _ h.mem_ring_frontBlock).elements_eq_nil hempty
    rw [h.laid.contents_eq, hlist, List.flatMap_cons, hnil, List.nil_append,
      List.flatMap_cons, hsound.elements_eq_cons hne hx]
    rfl

theorem Inv.properConsumer {s : System α} {used free : List Pointer}
    (h : s.Inv used free) : s.ProperConsumer := by
  have hconsumer := h.consumer
  unfold ProperConsumer
  cases hpc : s.consumer with
  | reloadNextTail call b nextBlockFront =>
      rw [hpc] at hconsumer
      obtain ⟨hb, rfl, -⟩ := hconsumer
      exact h.front_ne_tail (List.mem_of_getElem? hb) (h.ne_frontBlock hb)
  | take call b i =>
      obtain ⟨hlt, x, hx, -⟩ := h.take_spec hpc
      exact ⟨hlt, Option.isSome_iff_exists.mpr ⟨x, hx⟩⟩
  | _ => trivial

/-- The writer constructs in the slot that the reader takes from. -/
def Races (s : System α) : Prop :=
  ∃ b i, (∃ call, s.consumer = .take call b i) ∧
    ((∃ element next, s.producer = .construct element b i next) ∨
      ∃ element, s.producer = .constructNext element b i)

theorem not_races_of_proper {s : System α} (hproducer : s.ProperProducer)
    (hconsumer : s.ProperConsumer) : ¬ s.Races := by
  rintro ⟨b, i, ⟨call, htake⟩, ⟨element, next, hconstruct⟩ | ⟨element, hconstruct⟩⟩
  all_goals
    rw [ProperConsumer, htake] at hconsumer
    rw [ProperProducer, hconstruct] at hproducer
    dsimp only at hproducer hconsumer
    rw [hproducer.2] at hconsumer
    exact Bool.false_ne_true hconsumer.2

/-- In every run, the assertions of the code hold, objects are constructed in raw slots
only and taken from slots that hold one, and the two threads are never at the same
slot. -/
theorem proper_of_run {maxBlockSize maxSize : ℕ} (h : Sizes maxBlockSize maxSize)
    {ls : List (Label α)} {s : System α}
    (hr : run (step maxBlockSize) (initial maxBlockSize maxSize) ls = some s) :
    s.ProperProducer ∧ s.ProperConsumer ∧ ¬ s.Races := by
  obtain ⟨used, free, hinv⟩ := valid_of_run h hr
  exact ⟨hinv.properProducer, hinv.properConsumer,
    not_races_of_proper hinv.properProducer hinv.properConsumer⟩

theorem proper_secondBlock :
    ∃ s, run (step 2) (initial 2 1) secondBlock = some s ∧
      s.ProperProducer ∧ s.ProperConsumer ∧ ¬ s.Races := by
  obtain ⟨s, hs⟩ := exists_run_secondBlock
  exact ⟨s, hs, proper_of_run sizes_two_one hs⟩

end Proper

end System

end Moodycamel

end Vendored

end Async

end Kclpp
