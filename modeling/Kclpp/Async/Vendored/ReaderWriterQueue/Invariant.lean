import Kclpp.Async.Vendored.ReaderWriterQueue.Layout

/-!
# The invariant of the queue

Every block is in the ring, except for one that is just being made. Between its first and
its last block the used blocks are full, the tail block is not
empty once the writer has gone there, and the free blocks are empty. A slot holds an
object exactly when it lies between front and tail, except for the one that the
reader has just emptied and the one that the writer has just filled. `Producer.Inv`
and `Consumer.Inv` are what a thread knows where it stands.

What a thread knows is not undone by the other one: `ReaderStep` and `WriterStep` say
what the steps of the one leave alone of what the other relies on.
-/

namespace Kclpp

namespace Async

namespace Vendored

namespace Moodycamel

open CircularBuffer

variable {α : Type*}

namespace Block

/-- A block with the object that the writer has put into it before anyone else knows
of it. -/
structure Fresh (block : Block α) (x : α) : Prop where
  sound : block.Sound
  front : block.front = 0
  tail : block.tail = 1
  first : block.data 0 = some x
  others : ∀ i, i ≠ 0 → block.data i = none

structure SameEnds (block block' : Block α) : Prop where
  front : block'.front = block.front
  tail : block'.tail = block.tail
  next : block'.next = block.next
  sizeMask : block'.sizeMask = block.sizeMask

structure Alike (block block' : Block α) : Prop extends SameEnds block block' where
  data : block'.data = block.data

theorem SameEnds.refl (block : Block α) : block.SameEnds block := ⟨rfl, rfl, rfl, rfl⟩

theorem Alike.refl (block : Block α) : block.Alike block :=
  ⟨SameEnds.refl block, rfl⟩

theorem SameEnds.size {block block' : Block α} (h : block.SameEnds block') :
    block'.size = block.size := congrArg Nat.succ h.sizeMask

theorem SameEnds.full_iff {block block' : Block α} (h : block.SameEnds block') :
    block'.Full ↔ block.Full := by
  rw [Full, Full, h.size, h.front, h.tail]

theorem Alike.elements {block block' : Block α} (h : block.Alike block') :
    block'.elements = block.elements := by
  rw [Block.elements, Block.elements, h.size, h.front, h.tail, h.data]

theorem sameEnds_modify (queue : ReaderWriterQueue α) (b : Pointer)
    (f : Block α → Block α) (hf : ∀ block, SameEnds block (f block)) (c : Pointer) :
    (queue.heap c).SameEnds ((queue.modify b f).heap c) := by
  rw [ReaderWriterQueue.modify_heap]
  split_ifs with h
  · rw [h]
    exact hf _
  · exact SameEnds.refl _

theorem sameEnds_construct (queue : ReaderWriterQueue α) (b : Pointer) (i : ℕ)
    (element : α) (c : Pointer) :
    (queue.heap c).SameEnds ((queue.construct b i element).heap c) := by
  refine sameEnds_modify queue b _ (fun block => ?_) c
  exact ⟨rfl, rfl, rfl, rfl⟩

theorem sameEnds_destroy (queue : ReaderWriterQueue α) (b : Pointer) (i : ℕ)
    (c : Pointer) : (queue.heap c).SameEnds ((queue.destroy b i).heap c) := by
  refine sameEnds_modify queue b _ (fun block => ?_) c
  exact ⟨rfl, rfl, rfl, rfl⟩

theorem alike_modify (queue : ReaderWriterQueue α) (b : Pointer)
    (f : Block α → Block α) (hf : ∀ block, Alike block (f block)) (c : Pointer) :
    (queue.heap c).Alike ((queue.modify b f).heap c) := by
  rw [ReaderWriterQueue.modify_heap]
  split_ifs with h
  · rw [h]
    exact hf _
  · exact Alike.refl _

theorem alike_setLocalTail (queue : ReaderWriterQueue α) (b : Pointer)
    (localTail : ℕ) (c : Pointer) :
    (queue.heap c).Alike ((queue.setLocalTail b localTail).heap c) := by
  refine alike_modify queue b _ (fun block => ?_) c
  exact ⟨⟨rfl, rfl, rfl, rfl⟩, rfl⟩

theorem alike_setLocalFront (queue : ReaderWriterQueue α) (b : Pointer)
    (localFront : ℕ) (c : Pointer) :
    (queue.heap c).Alike ((queue.setLocalFront b localFront).heap c) := by
  refine alike_modify queue b _ (fun block => ?_) c
  exact ⟨⟨rfl, rfl, rfl, rfl⟩, rfl⟩

theorem sound_modify {queue : ReaderWriterQueue α} {b : Pointer}
    {f : Block α → Block α} {l : List Pointer} (h : ∀ c ∈ l, (queue.heap c).Sound)
    (hf : (f (queue.heap b)).Sound) : ∀ c ∈ l, ((queue.modify b f).heap c).Sound := by
  intro c hc
  rw [ReaderWriterQueue.modify_heap]
  split_ifs with heq
  · exact hf
  · exact h c hc

end Block

namespace ReaderWriterQueue

/-- A tail block that the writer is about to leave is full, unless the reader is in it
as well. -/
def Leaving (queue : ReaderWriterQueue α) (used : List Pointer) : Prop :=
  2 ≤ used.length → (queue.heap queue.tailBlock).Full

end ReaderWriterQueue

namespace Producer

/-- The slot that the writer has filled but not yet passed with the tail. -/
def Constructed (b : Pointer) (i : ℕ) : Producer α → Prop
  | .setTail _ tailBlock blockTail _ => b = tailBlock ∧ i = blockTail
  | .setNextTail _ tailBlockNext nextBlockTail =>
      b = tailBlockNext ∧ i = nextBlockTail
  | _ => False

/-- The block that the writer is about to make the tail block. -/
def Advancing (b : Pointer) : Producer α → Prop
  | .setTailBlock _ newTailBlock => b = newTailBlock
  | _ => False

/-- The block that the writer has made but not yet put into the ring. -/
def Linking (b : Pointer) : Producer α → Prop
  | .linkBlock _ _ n => b = n
  | _ => False

/-- The writer has nothing half done. -/
structure Plain (producer : Producer α) : Prop where
  constructed : ∀ b i, ¬ producer.Constructed b i
  advancing : ∀ b, ¬ producer.Advancing b
  linking : ∀ b, ¬ producer.Linking b

/-- What the writer knows where it stands. -/
def Inv (queue : ReaderWriterQueue α) (used free : List Pointer) : Producer α → Prop
  | .idle => True
  | .reloadFront _ _ b blockTail nextBlockTail =>
      b = queue.tailBlock ∧ blockTail = (queue.heap b).tail ∧
        nextBlockTail = succ (queue.heap b).size blockTail
  | .construct _ b blockTail nextBlockTail =>
      b = queue.tailBlock ∧ blockTail = (queue.heap b).tail ∧
        nextBlockTail = succ (queue.heap b).size blockTail ∧
        nextBlockTail ≠ (queue.heap b).localFront
  | .setTail element b blockTail nextBlockTail =>
      b = queue.tailBlock ∧ blockTail = (queue.heap b).tail ∧
        nextBlockTail = succ (queue.heap b).size blockTail ∧
        nextBlockTail ≠ (queue.heap b).localFront ∧
        (queue.heap b).data blockTail = some element
  | .checkNext _ _ b => b = queue.tailBlock ∧ queue.Leaving used
  | .reloadNextFront _ b =>
      b = queue.tailBlock ∧ queue.Leaving used ∧
        free.head? = some (queue.heap b).next
  | .constructNext _ b nextBlockTail =>
      queue.Leaving used ∧ free.head? = some b ∧
        nextBlockTail = (queue.heap b).tail ∧
        (queue.heap b).localFront = (queue.heap b).front
  | .setNextTail element b nextBlockTail =>
      queue.Leaving used ∧ free.head? = some b ∧
        nextBlockTail = (queue.heap b).tail ∧
        (queue.heap b).localFront = (queue.heap b).front ∧
        (queue.heap b).data nextBlockTail = some element
  | .newBlock _ b => b = queue.tailBlock ∧ queue.Leaving used
  | .linkBlock element b n =>
      b = queue.tailBlock ∧ queue.Leaving used ∧ n ∉ used ++ free ∧
        (nullptr < n ∧ n ≤ queue.allocated) ∧
        (queue.heap n).next = (queue.heap b).next ∧
        (queue.heap n).Fresh element
  | .setTailBlock element b =>
      queue.Leaving used ∧ free.head? = some b ∧
        (queue.heap b).front ≠ (queue.heap b).tail ∧
        (queue.heap b).elements = [element]

end Producer

namespace Consumer

/-- The slot that the reader has emptied but not yet passed with the front. -/
def Taken (b : Pointer) (i : ℕ) : Consumer α → Prop
  | .setFront _ block blockFront _ => b = block ∧ i = blockFront
  | _ => False

/-- What the reader knows where it stands. -/
def Inv (queue : ReaderWriterQueue α) (used : List Pointer) : Consumer α → Prop
  | .idle => True
  | .reloadTail _ b blockFront =>
      b = queue.frontBlock ∧ blockFront = (queue.heap b).front
  | .checkTailBlock _ b => b = queue.frontBlock
  | .recheck _ => 2 ≤ used.length
  | .readNext _ b =>
      b = queue.frontBlock ∧ 2 ≤ used.length ∧
        (queue.heap b).front = (queue.heap b).tail
  | .reloadNextTail _ b nextBlockFront =>
      used[1]? = some b ∧ nextBlockFront = (queue.heap b).front ∧
        (queue.heap queue.frontBlock).front = (queue.heap queue.frontBlock).tail
  | .setFrontBlock call b nextBlockFront =>
      call ≠ .peek ∧ used[1]? = some b ∧ nextBlockFront = (queue.heap b).front ∧
        nextBlockFront ≠ (queue.heap b).localTail ∧
        (queue.heap queue.frontBlock).front = (queue.heap queue.frontBlock).tail
  | .take call b blockFront =>
      blockFront = (queue.heap b).front ∧
        (b = queue.frontBlock ∧ blockFront ≠ (queue.heap b).localTail ∨
          call = .peek ∧ used[1]? = some b ∧
            (queue.heap queue.frontBlock).front =
              (queue.heap queue.frontBlock).tail)
  | .setFront call b blockFront _ =>
      call ≠ .peek ∧ b = queue.frontBlock ∧ blockFront = (queue.heap b).front ∧
        blockFront ≠ (queue.heap b).localTail

end Consumer

namespace System

/-- A slot holds an object. -/
def Holds (s : System α) (b : Pointer) (i : ℕ) : Prop :=
  i ∈ slots (s.queue.heap b).size (s.queue.heap b).front (s.queue.heap b).tail ∧
      ¬ s.consumer.Taken b i ∨
    s.producer.Constructed b i

/-- The invariant, for given lists of the used blocks and the free ones. -/
structure Inv (s : System α) (used free : List Pointer) : Prop where
  laid : Laid s.queue used free
  covered : ∀ b, nullptr < b → b ≤ s.queue.allocated →
    b ∈ used ++ free ∨ s.producer.Linking b
  largest : ∃ k, s.queue.largestBlockSize = 2 ^ (k + 1)
  sound : ∀ b ∈ used ++ free, (s.queue.heap b).Sound
  between : ∀ b ∈ used, b ≠ s.queue.frontBlock → b ≠ s.queue.tailBlock →
    (s.queue.heap b).Full
  filled : 2 ≤ used.length → (s.queue.heap s.queue.tailBlock).front ≠
    (s.queue.heap s.queue.tailBlock).tail
  spare : ∀ b ∈ free, ¬ s.producer.Advancing b →
    (s.queue.heap b).front = (s.queue.heap b).tail
  slots : ∀ b ∈ used ++ free, ∀ i < (s.queue.heap b).size,
    ((s.queue.heap b).data i).isSome ↔ s.Holds b i
  producer : s.producer.Inv s.queue used free
  consumer : s.consumer.Inv s.queue used

end System

namespace System

variable {s : System α} {used free : List Pointer}

theorem Inv.mem_ring_frontBlock (h : s.Inv used free) :
    s.queue.frontBlock ∈ used ++ free :=
  List.mem_append_left _ h.laid.frontBlock_mem

theorem Inv.mem_ring_tailBlock (h : s.Inv used free) :
    s.queue.tailBlock ∈ used ++ free :=
  List.mem_append_left _ h.laid.tailBlock_mem

theorem Inv.front_ne_tail (h : s.Inv used free) {b : Pointer} (hb : b ∈ used)
    (hne : b ≠ s.queue.frontBlock) :
    (s.queue.heap b).front ≠ (s.queue.heap b).tail := by
  by_cases htail : b = s.queue.tailBlock
  · subst htail
    exact h.filled (h.laid.two_le_length_iff.mpr hne.symm)
  · exact (h.sound b (List.mem_append_left _ hb)).front_ne_tail_of_full
      (h.between b hb hne htail)

theorem Inv.eq_tail_of_constructed (h : s.Inv used free) {b : Pointer} {i : ℕ}
    (hc : s.producer.Constructed b i) : i = (s.queue.heap b).tail := by
  have hproducer := h.producer
  revert hc hproducer
  cases s.producer with
  | setTail element c blockTail nextBlockTail =>
      rintro ⟨rfl, rfl⟩ ⟨-, htail, -⟩
      exact htail
  | setNextTail element c nextBlockTail =>
      rintro ⟨rfl, rfl⟩ ⟨-, -, htail, -⟩
      exact htail
  | _ => exact fun hc => hc.elim

theorem Inv.front_ne_tail_of_taken (h : s.Inv used free) {b : Pointer} {i : ℕ}
    (ht : s.consumer.Taken b i) : i ≠ (s.queue.heap b).tail := by
  have hconsumer := h.consumer
  revert ht hconsumer
  cases s.consumer with
  | setFront call c blockFront element =>
      rintro ⟨rfl, rfl⟩ ⟨-, rfl, rfl, hlocal⟩
      exact (h.sound _ h.mem_ring_frontBlock).front_ne_tail hlocal
  | _ => exact fun ht => ht.elim

theorem Inv.eq_frontBlock_of_taken (h : s.Inv used free) {b : Pointer} {i : ℕ}
    (ht : s.consumer.Taken b i) : b = s.queue.frontBlock := by
  have hconsumer := h.consumer
  revert ht hconsumer
  cases s.consumer with
  | setFront call c blockFront element =>
      rintro ⟨rfl, rfl⟩ ⟨-, heq, -⟩
      exact heq
  | _ => exact fun ht => ht.elim

theorem Inv.mem_ring (h : s.Inv used free) (hplain : s.producer.Plain) {b : Pointer}
    (hb : nullptr < b) (hle : b ≤ s.queue.allocated) : b ∈ used ++ free :=
  (h.covered b hb hle).resolve_right (hplain.linking b)

/-- A step that moves no end of a block keeps all of the invariant that is not about
its own slot or about what the threads know. -/
theorem Inv.of_sameEnds (h : s.Inv used free) (s' : System α)
    (hfront : s'.queue.frontBlock = s.queue.frontBlock)
    (htail : s'.queue.tailBlock = s.queue.tailBlock)
    (hallocated : s.queue.allocated ≤ s'.queue.allocated)
    (hcovered : ∀ b, nullptr < b → b ≤ s'.queue.allocated →
      b ∈ used ++ free ∨ s'.producer.Linking b)
    (hlargest : ∃ k, s'.queue.largestBlockSize = 2 ^ (k + 1))
    (hends : ∀ b ∈ used ++ free, (s.queue.heap b).SameEnds (s'.queue.heap b))
    (hsound : ∀ b ∈ used ++ free, (s'.queue.heap b).Sound)
    (hadvancing : ∀ b, s.producer.Advancing b → s'.producer.Advancing b)
    (hslots : ∀ b ∈ used ++ free, ∀ i < (s.queue.heap b).size,
      ((s'.queue.heap b).data i).isSome ↔ s'.Holds b i)
    (hproducer : s'.producer.Inv s'.queue used free)
    (hconsumer : s'.consumer.Inv s'.queue used) : s'.Inv used free where
  laid := h.laid.congr (fun b hb => (hends b hb).next) hfront htail hallocated
  covered := hcovered
  largest := hlargest
  sound := hsound
  between b hb hne hne' := by
    rw [(hends b (List.mem_append_left _ hb)).full_iff]
    exact h.between b hb (hfront ▸ hne) (htail ▸ hne')
  filled htwo := by
    have hends := hends _ h.mem_ring_tailBlock
    rw [htail, hends.front, hends.tail]
    exact h.filled htwo
  spare b hb hnot := by
    have hends := hends b (List.mem_append_right _ hb)
    rw [hends.front, hends.tail]
    exact h.spare b hb fun hb => hnot (hadvancing b hb)
  slots b hb i hi := hslots b hb i ((hends b hb).size ▸ hi)
  producer := hproducer
  consumer := hconsumer

theorem Inv.slots_of_alike (h : s.Inv used free) (s' : System α) {b : Pointer} (hb : b ∈ used ++ free)
    (halike : (s.queue.heap b).Alike (s'.queue.heap b))
    (htaken : ∀ i, s'.consumer.Taken b i ↔ s.consumer.Taken b i)
    (hconstructed : ∀ i, s'.producer.Constructed b i ↔ s.producer.Constructed b i)
    {i : ℕ} (hi : i < (s.queue.heap b).size) :
    ((s'.queue.heap b).data i).isSome ↔ s'.Holds b i := by
  rw [halike.data, h.slots b hb i hi, Holds, Holds, halike.size, halike.front,
    halike.tail, htaken, hconstructed]

end System

structure ReaderStep (queue queue' : ReaderWriterQueue α)
    (used free used' free' : List Pointer) : Prop where
  tailBlock : queue'.tailBlock = queue.tailBlock
  allocated : queue'.allocated = queue.allocated
  others : ∀ b, b ∉ used → queue'.heap b = queue.heap b
  tail : (queue'.heap queue.tailBlock).tail = (queue.heap queue.tailBlock).tail
  localFront : (queue'.heap queue.tailBlock).localFront =
    (queue.heap queue.tailBlock).localFront
  next : (queue'.heap queue.tailBlock).next = (queue.heap queue.tailBlock).next
  sizeMask : (queue'.heap queue.tailBlock).sizeMask =
    (queue.heap queue.tailBlock).sizeMask
  front : 2 ≤ used.length → (queue'.heap queue.tailBlock).front =
    (queue.heap queue.tailBlock).front
  data : (queue'.heap queue.tailBlock).data (queue.heap queue.tailBlock).tail =
    (queue.heap queue.tailBlock).data (queue.heap queue.tailBlock).tail
  ring : ∀ b, b ∈ used' ++ free' ↔ b ∈ used ++ free
  free : ∃ l, free' = free ++ l
  used : used'.length ≤ used.length

structure WriterStep (queue queue' : ReaderWriterQueue α)
    (used used' : List Pointer) : Prop where
  frontBlock : queue'.frontBlock = queue.frontBlock
  front : ∀ b ∈ used, (queue'.heap b).front = (queue.heap b).front
  localTail : ∀ b ∈ used, (queue'.heap b).localTail = (queue.heap b).localTail
  tail : 2 ≤ used.length → (queue'.heap queue.frontBlock).tail =
    (queue.heap queue.frontBlock).tail
  used : ∃ l, used' = used ++ l

theorem Producer.Inv.of_readerStep {queue queue' : ReaderWriterQueue α}
    {used free used' free' : List Pointer} {producer : Producer α}
    (h : producer.Inv queue used free) (hlaid : Laid queue used free)
    (hstep : ReaderStep queue queue' used free used' free') :
    producer.Inv queue' used' free' := by
  obtain ⟨l, rfl⟩ := hstep.free
  have hsize : (queue'.heap queue.tailBlock).size = (queue.heap queue.tailBlock).size :=
    congrArg Nat.succ hstep.sizeMask
  have hleaving : queue.Leaving used → queue'.Leaving used' := by
    intro hleaving htwo
    have htwo' := htwo.trans hstep.used
    rw [hstep.tailBlock, Block.Full, hsize, hstep.tail, hstep.front htwo']
    exact hleaving htwo'
  have hhead : ∀ b, free.head? = some b →
      (free ++ l).head? = some b ∧ queue'.heap b = queue.heap b := by
    intro b hb
    refine ⟨by rw [List.head?_append, hb]; rfl, hstep.others b fun hmem => ?_⟩
    exact hlaid.ne_of_mem hmem (List.mem_of_head? hb) rfl
  cases producer with
  | idle => trivial
  | reloadFront mode element b blockTail nextBlockTail =>
      obtain ⟨rfl, rfl, rfl⟩ := h
      exact ⟨hstep.tailBlock.symm, hstep.tail.symm, by rw [hsize]⟩
  | construct element b blockTail nextBlockTail =>
      obtain ⟨rfl, rfl, rfl, hroom⟩ := h
      refine ⟨hstep.tailBlock.symm, hstep.tail.symm, by rw [hsize], ?_⟩
      rw [hstep.localFront]
      exact hroom
  | setTail element b blockTail nextBlockTail =>
      obtain ⟨rfl, rfl, rfl, hroom, hdata⟩ := h
      refine ⟨hstep.tailBlock.symm, hstep.tail.symm, by rw [hsize], ?_, ?_⟩
      · rw [hstep.localFront]
        exact hroom
      · rw [hstep.data]
        exact hdata
  | checkNext mode element b => exact ⟨hstep.tailBlock ▸ h.1, hleaving h.2⟩
  | reloadNextFront element b =>
      obtain ⟨rfl, hl, hb⟩ := h
      refine ⟨hstep.tailBlock.symm, hleaving hl, ?_⟩
      rw [hstep.next]
      exact (hhead _ hb).1
  | constructNext element b nextBlockTail =>
      obtain ⟨hl, hb, ht, hf⟩ := h
      obtain ⟨hb', heap⟩ := hhead b hb
      refine ⟨hleaving hl, hb', ?_, ?_⟩
      · rw [heap]
        exact ht
      · rw [heap]
        exact hf
  | setNextTail element b nextBlockTail =>
      obtain ⟨hl, hb, ht, hf, hdata⟩ := h
      obtain ⟨hb', heap⟩ := hhead b hb
      refine ⟨hleaving hl, hb', ?_, ?_, ?_⟩
      · rw [heap]
        exact ht
      · rw [heap]
        exact hf
      · rw [heap]
        exact hdata
  | newBlock element b => exact ⟨hstep.tailBlock ▸ h.1, hleaving h.2⟩
  | linkBlock element b n =>
      obtain ⟨rfl, hl, hn, hallocated, hnext, hfresh⟩ := h
      have heap : queue'.heap n = queue.heap n :=
        hstep.others n fun hmem => hn (List.mem_append_left _ hmem)
      refine ⟨hstep.tailBlock.symm, hleaving hl, ?_, ?_, ?_, ?_⟩
      · rw [hstep.ring]
        exact hn
      · rw [hstep.allocated]
        exact hallocated
      · rw [heap, hstep.next]
        exact hnext
      · rw [heap]
        exact hfresh
  | setTailBlock element b =>
      obtain ⟨hl, hb, hne, helements⟩ := h
      obtain ⟨hb', heap⟩ := hhead b hb
      refine ⟨hleaving hl, hb', ?_, ?_⟩
      · rw [heap]
        exact hne
      · rw [heap]
        exact helements

theorem Consumer.Inv.of_writerStep {queue queue' : ReaderWriterQueue α}
    {used free used' : List Pointer} {consumer : Consumer α}
    (h : consumer.Inv queue used) (hlaid : Laid queue used free)
    (hstep : WriterStep queue queue' used used') : consumer.Inv queue' used' := by
  obtain ⟨l, rfl⟩ := hstep.used
  have hlength : 2 ≤ used.length → 2 ≤ (used ++ l).length := by
    intro htwo
    rw [List.length_append]
    omega
  have hfront := hstep.front _ hlaid.frontBlock_mem
  have hlocal := hstep.localTail _ hlaid.frontBlock_mem
  have hsecond : ∀ b, used[1]? = some b →
      (used ++ l)[1]? = some b ∧ b ∈ used ∧ 2 ≤ used.length := by
    intro b hb
    obtain ⟨hlt, -⟩ := List.getElem?_eq_some_iff.mp hb
    exact ⟨(List.getElem?_append_left hlt).trans hb, List.mem_of_getElem? hb, hlt⟩
  cases consumer with
  | idle => trivial
  | reloadTail call b blockFront =>
      obtain ⟨rfl, rfl⟩ := h
      exact ⟨hstep.frontBlock.symm, hfront.symm⟩
  | checkTailBlock call b => exact h.trans hstep.frontBlock.symm
  | recheck call => exact hlength h
  | readNext call b =>
      obtain ⟨rfl, htwo, hempty⟩ := h
      refine ⟨hstep.frontBlock.symm, hlength htwo, ?_⟩
      rw [hfront, hstep.tail htwo]
      exact hempty
  | reloadNextTail call b nextBlockFront =>
      obtain ⟨hb, rfl, hempty⟩ := h
      obtain ⟨hb', hmem, htwo⟩ := hsecond b hb
      refine ⟨hb', (hstep.front b hmem).symm, ?_⟩
      rw [hstep.frontBlock, hfront, hstep.tail htwo]
      exact hempty
  | setFrontBlock call b nextBlockFront =>
      obtain ⟨hcall, hb, rfl, hne, hempty⟩ := h
      obtain ⟨hb', hmem, htwo⟩ := hsecond b hb
      refine ⟨hcall, hb', (hstep.front b hmem).symm, ?_, ?_⟩
      · rw [hstep.localTail b hmem]
        exact hne
      · rw [hstep.frontBlock, hfront, hstep.tail htwo]
        exact hempty
  | take call b blockFront =>
      obtain ⟨rfl, h⟩ := h
      rcases h with ⟨rfl, hne⟩ | ⟨hcall, hb, hempty⟩
      · refine ⟨hfront.symm, .inl ⟨hstep.frontBlock.symm, ?_⟩⟩
        rw [hlocal]
        exact hne
      · obtain ⟨hb', hmem, htwo⟩ := hsecond b hb
        refine ⟨(hstep.front b hmem).symm, .inr ⟨hcall, hb', ?_⟩⟩
        rw [hstep.frontBlock, hfront, hstep.tail htwo]
        exact hempty
  | setFront call b blockFront element =>
      obtain ⟨hcall, rfl, rfl, hne⟩ := h
      refine ⟨hcall, hstep.frontBlock.symm, hfront.symm, ?_⟩
      rw [hlocal]
      exact hne

end Moodycamel

end Vendored

end Async

end Kclpp
