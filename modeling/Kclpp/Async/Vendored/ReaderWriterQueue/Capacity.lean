import Kclpp.Async.Vendored.ReaderWriterQueue.Exchange

/-!
# How much the queue holds

The writer is refused when the tail block is full and the next block is the front one.
Then all blocks but the front one are full, and the constructor has seen to it that
they have room for the number of elements it was given. `refused_only_if_full` says so
of the moment at which the call has found its block full.
-/

namespace Kclpp

namespace Async

namespace Vendored

namespace Moodycamel

open CircularBuffer Transition

variable {α : Type*}

namespace ReaderWriterQueue

/-- There is one block, and it has room for `n` elements, or all blocks but any one of
them have it. -/
structure Spacious (n : ℕ) (queue : ReaderWriterQueue α) : Prop where
  largest : ∀ b ∈ Finset.Icc 1 queue.allocated,
    (queue.heap b).sizeMask < queue.largestBlockSize
  room : queue.allocated = 1 ∧ n ≤ (queue.heap 1).sizeMask ∨
    ∀ b ∈ Finset.Icc 1 queue.allocated,
      n ≤ ∑ c ∈ (Finset.Icc 1 queue.allocated).erase b, (queue.heap c).sizeMask

structure SameSizes (queue queue' : ReaderWriterQueue α) : Prop where
  allocated : queue'.allocated = queue.allocated
  largest : queue'.largestBlockSize = queue.largestBlockSize
  sizeMask : ∀ b, (queue'.heap b).sizeMask = (queue.heap b).sizeMask

theorem SameSizes.refl (queue : ReaderWriterQueue α) : SameSizes queue queue :=
  ⟨rfl, rfl, fun _ => rfl⟩

theorem sameSizes_modify (queue : ReaderWriterQueue α) (b : Pointer)
    {f : Block α → Block α} (hf : ∀ block, (f block).sizeMask = block.sizeMask) :
    SameSizes queue (queue.modify b f) := by
  refine ⟨rfl, rfl, fun c => ?_⟩
  rw [modify_heap]
  split_ifs with h
  · rw [hf, h]
  · rfl

theorem Spacious.of_sameSizes {n : ℕ} {queue queue' : ReaderWriterQueue α}
    (h : queue.Spacious n) (hsame : SameSizes queue queue') : queue'.Spacious n := by
  obtain ⟨hlargest, hroom⟩ := h
  refine ⟨?_, ?_⟩
  · rw [hsame.allocated, hsame.largest]
    simp only [hsame.sizeMask]
    exact hlargest
  · rw [hsame.allocated]
    simp only [hsame.sizeMask]
    exact hroom

structure OneMore (queue queue' : ReaderWriterQueue α) : Prop where
  allocated : queue'.allocated = queue.allocated + 1
  largest : queue.largestBlockSize ≤ queue'.largestBlockSize
  sizeMask : ∀ b, b ≠ queue.allocated + 1 →
    (queue'.heap b).sizeMask = (queue.heap b).sizeMask
  last : (queue'.heap (queue.allocated + 1)).sizeMask = queue'.largestBlockSize - 1

theorem Spacious.of_oneMore {n : ℕ} {queue queue' : ReaderWriterQueue α}
    (h : queue.Spacious n) (hmore : OneMore queue queue')
    (hpos : 1 ≤ queue.allocated) : queue'.Spacious n := by
  have hold : ∀ b ∈ Finset.Icc 1 queue.allocated,
      (queue'.heap b).sizeMask = (queue.heap b).sizeMask := by
    intro b hb
    refine hmore.sizeMask b fun heq => ?_
    have hle := (Finset.mem_Icc.mp hb).2
    omega
  have hlast := hmore.last
  have hone := h.largest 1 (Finset.mem_Icc.mpr ⟨le_rfl, hpos⟩)
  have hle := hmore.largest
  have hsplit : Finset.Icc 1 (queue.allocated + 1) =
      insert (queue.allocated + 1) (Finset.Icc 1 queue.allocated) := by
    ext b
    rw [Finset.mem_insert, Finset.mem_Icc, Finset.mem_Icc]
    omega
  have hnotMem : queue.allocated + 1 ∉ Finset.Icc 1 queue.allocated := fun hmem =>
    absurd (Finset.mem_Icc.mp hmem).2 (Nat.not_succ_le_self _)
  refine ⟨fun b hb => ?_, .inr fun b hb => ?_⟩
  · rw [hmore.allocated, hsplit, Finset.mem_insert] at hb
    rcases hb with rfl | hb
    · rw [hlast]
      omega
    · rw [hold b hb]
      exact (h.largest b hb).trans_le hle
  · rw [hmore.allocated, hsplit] at hb ⊢
    rcases Finset.mem_insert.mp hb with rfl | hb
    · -- the old blocks have room without any one of them
      rw [Finset.erase_insert hnotMem, Finset.sum_congr rfl hold]
      rcases h.room with ⟨hallocated, hroom⟩ | hroom
      · rw [hallocated, Finset.Icc_self, Finset.sum_singleton]
        exact hroom
      · refine (hroom 1 (Finset.mem_Icc.mpr ⟨le_rfl, hpos⟩)).trans ?_
        exact Finset.sum_le_sum_of_subset (Finset.erase_subset _ _)
    · have hne : queue.allocated + 1 ≠ b := (ne_of_mem_of_not_mem hb hnotMem).symm
      rw [Finset.erase_insert_of_ne hne, Finset.sum_insert (fun hmem =>
        hnotMem (Finset.mem_of_mem_erase hmem)), Finset.sum_congr rfl fun c hc =>
          hold c (Finset.mem_of_mem_erase hc), hlast]
      rcases h.room with ⟨-, hroom⟩ | hroom
      · omega
      · exact (hroom b hb).trans (Nat.le_add_left _ _)

end ReaderWriterQueue

open ReaderWriterQueue

/-- The constructor makes room for as many elements as it was asked for. -/
theorem create_spacious {maxBlockSize maxSize : ℕ} (h : Sizes maxBlockSize maxSize) :
    (create maxBlockSize maxSize : ReaderWriterQueue α).Spacious maxSize := by
  obtain ⟨count, size, k, heq, hsize, hroom⟩ := h.blocksFor_spec
  have hnew := create_new (α := α) heq
  have hpos : 1 < size := hsize ▸ Nat.one_lt_two_pow (Nat.succ_ne_zero k)
  have hmask : ∀ b ∈ Finset.Icc 1 (count + 1),
      ((create maxBlockSize maxSize : ReaderWriterQueue α).heap b).sizeMask = size - 1 := by
    intro b hb
    obtain ⟨hge, hle⟩ := Finset.mem_Icc.mp hb
    rw [hnew.heap b hge hle]
    rfl
  have hallocated := hnew.allocated
  refine ⟨fun b hb => ?_, ?_⟩
  · rw [hallocated] at hb
    rw [hmask b hb, hnew.largest]
    omega
  · rcases hroom with ⟨rfl, hroom⟩ | hroom
    · refine .inl ⟨hallocated, ?_⟩
      rw [hmask 1 (Finset.mem_Icc.mpr ⟨le_rfl, le_rfl⟩)]
      exact hroom
    · refine .inr fun b hb => ?_
      rw [hallocated] at hb ⊢
      rw [Finset.sum_congr rfl fun c hc => hmask c (Finset.mem_of_mem_erase hc),
        Finset.sum_const, Finset.card_erase_of_mem hb, Nat.card_Icc, smul_eq_mul]
      exact hroom

namespace System

def held (s : System α) : List α := s.consumer.inHand ++ s.queue.contents

/-- A block that the reader is not taking from holds as many elements as there are
slots between its ends. -/
theorem Inv.length_elements {s : System α} {used free : List Pointer}
    (h : s.Inv used free) {b : Pointer} (hb : b ∈ used ++ free)
    (htaken : ∀ i, ¬ s.consumer.Taken b i) :
    (s.queue.heap b).elements.length =
      occupied (s.queue.heap b).size (s.queue.heap b).front (s.queue.heap b).tail := by
  rw [Block.elements, List.length_filterMap_eq_countP, ← length_slots]
  refine List.countP_eq_length.mpr fun i hi => ?_
  rw [h.slots b hb i (lt_of_mem_slots (s.queue.heap b).size_pos hi)]
  exact .inl ⟨hi, htaken i⟩

/-- In the front block, the element in hand makes up for the slot that the reader has
emptied. -/
theorem Inv.occupied_frontBlock_le {s : System α} {used free : List Pointer}
    (h : s.Inv used free) :
    occupied (s.queue.heap s.queue.frontBlock).size
        (s.queue.heap s.queue.frontBlock).front
        (s.queue.heap s.queue.frontBlock).tail ≤
      s.consumer.inHand.length +
        (s.queue.heap s.queue.frontBlock).elements.length := by
  by_cases hpc : ∃ call b i x, s.consumer = .setFront call b i x
  · obtain ⟨call, b, i, x, hpc⟩ := hpc
    have hconsumer := h.consumer
    rw [hpc] at hconsumer
    obtain ⟨-, rfl, rfl, hlocal⟩ := hconsumer
    have hsound := h.sound _ h.mem_ring_frontBlock
    have hne := hsound.front_ne_tail hlocal
    have hstep := occupied_succ_front hsound.front hsound.tail hne
    have hnotMem := front_notMem_slots_succ hsound.front hsound.tail hne
    have hslots := slots_of_ne hsound.front hsound.tail hne
    have hle : occupied (s.queue.heap s.queue.frontBlock).size
        (succ (s.queue.heap s.queue.frontBlock).size
          (s.queue.heap s.queue.frontBlock).front)
        (s.queue.heap s.queue.frontBlock).tail ≤
          (s.queue.heap s.queue.frontBlock).elements.length := by
      rw [Block.elements, List.length_filterMap_eq_countP, hslots, List.countP_cons,
        ← length_slots]
      refine le_trans (le_of_eq ?_) (Nat.le_add_right _ _)
      refine (List.countP_eq_length.mpr fun j hj => ?_).symm
      rw [h.slots _ h.mem_ring_frontBlock j
        (lt_of_mem_slots (s.queue.heap s.queue.frontBlock).size_pos hj), Holds, hpc]
      refine .inl ⟨hslots ▸ List.mem_cons_of_mem _ hj, ?_⟩
      rintro ⟨-, rfl⟩
      exact hnotMem hj
    rw [hpc]
    change _ ≤ 1 + _
    omega
  · rw [h.length_elements h.mem_ring_frontBlock fun i ht => ?_]
    · exact Nat.le_add_left _ _
    · revert ht hpc
      cases s.consumer with
      | setFront call b i x => exact fun hpc _ => hpc ⟨call, b, i, x, rfl⟩
      | _ => exact fun _ => id

theorem occupied_of_full {block : Block α} (h : block.Sound) (hfull : block.Full) :
    occupied block.size block.front block.tail = block.sizeMask := by
  rw [Block.Full, succ_eq_front_iff h.front h.tail] at hfull
  exact Nat.succ.inj hfull

/-- Where no block is free and the tail block is full, the queue holds as much as it
was made for. -/
theorem Inv.le_length_held {s : System α} {used : List Pointer} {n : ℕ}
    (h : s.Inv used []) (hplain : s.producer.Plain) (hspacious : s.queue.Spacious n)
    (hfull : (s.queue.heap s.queue.tailBlock).Full) : n ≤ s.held.length := by
  obtain ⟨rest, hused, hnotMem, hcontents⟩ := h.contents_eq_append
  have hfront := h.occupied_frontBlock_le
  have hmem : ∀ b, b ∈ Finset.Icc 1 s.queue.allocated ↔ b ∈ used := by
    intro b
    rw [Finset.mem_Icc]
    constructor
    · rintro ⟨hpos, hle⟩
      simpa using h.mem_ring hplain hpos hle
    · intro hb
      exact h.laid.allocated b (List.mem_append_left _ hb)
  have hnodup : rest.Nodup := by
    have hnodup := (List.nodup_append.mp h.laid.nodup).1
    rw [hused] at hnodup
    exact (List.nodup_cons.mp hnodup).2
  have hlength : s.held.length = s.consumer.inHand.length +
      (s.queue.heap s.queue.frontBlock).elements.length +
        (rest.map fun b => (s.queue.heap b).elements.length).sum := by
    rw [held, List.length_append, hcontents, List.length_append, List.length_flatMap,
      Nat.add_assoc]
  -- the blocks behind the front block are full
  have hrest : rest.map (fun b => (s.queue.heap b).elements.length) =
      rest.map fun b => (s.queue.heap b).sizeMask := by
    refine List.map_congr_left fun b hb => ?_
    have hb' : b ∈ used := hused ▸ List.mem_cons_of_mem _ hb
    have hne := ne_of_mem_of_not_mem hb hnotMem
    have hring := List.mem_append_left [] hb'
    have hfull' : (s.queue.heap b).Full := by
      by_cases htail : b = s.queue.tailBlock
      · rw [htail]
        exact hfull
      · exact h.between b hb' hne htail
    rw [h.length_elements hring fun i ht => hne (h.eq_frontBlock_of_taken ht),
      occupied_of_full (h.sound b hring) hfull']
  rw [hlength, hrest]
  rcases hspacious.room with ⟨hone, hroom⟩ | hroom
  · -- there is one block
    have hfirst : s.queue.frontBlock = 1 := by
      have hmem' := (hmem _).mpr h.laid.frontBlock_mem
      rw [hone, Finset.Icc_self, Finset.mem_singleton] at hmem'
      exact hmem'
    have hlast : s.queue.tailBlock = 1 := by
      have hmem' := (hmem _).mpr h.laid.tailBlock_mem
      rw [hone, Finset.Icc_self, Finset.mem_singleton] at hmem'
      exact hmem'
    rw [hlast] at hfull
    have hsound := h.sound _ h.mem_ring_frontBlock
    rw [hfirst] at hfront hsound ⊢
    rw [occupied_of_full hsound hfull] at hfront
    omega
  · have hall := hroom _ ((hmem _).mpr h.laid.frontBlock_mem)
    have hset : (Finset.Icc 1 s.queue.allocated).erase s.queue.frontBlock =
        rest.toFinset := by
      ext b
      rw [Finset.mem_erase, hmem, hused, List.mem_cons, List.mem_toFinset]
      constructor
      · rintro ⟨hne, heq | hb⟩
        · exact absurd heq hne
        · exact hb
      · exact fun hb => ⟨ne_of_mem_of_not_mem hb hnotMem, .inr hb⟩
    rw [hset, List.sum_toFinset _ hnodup] at hall
    exact hall.trans (Nat.le_add_left _ _)

/-- The writer has found its block full, and the next one is the front block, or it
has already gone on from there. -/
def FindsFull (s : System α) : Prop :=
  (∃ mode x b, s.producer = .checkNext mode x b ∧
      (s.queue.heap b).next = s.queue.frontBlock) ∨
    ∃ x b, s.producer = .newBlock x b

theorem not_findsFull_beginEnqueue (s : System α) (mode : AllocationMode) (x : α) :
    ¬ (s.beginEnqueue mode x).FindsFull := by
  rintro (⟨mode', x', b, hpc, -⟩ | ⟨x', b, hpc⟩)
  all_goals
    simp only [beginEnqueue] at hpc
    split_ifs at hpc

theorem consume_sameSizes {s s' : System α} (hstep : s.consume = some s') :
    SameSizes s.queue s'.queue := by
  unfold consume at hstep
  cases hpc : s.consumer with
  | idle =>
      rw [hpc] at hstep
      cases hstep
  | checkTailBlock call b =>
      rw [hpc] at hstep
      dsimp only at hstep
      split_ifs at hstep <;> cases hstep <;> exact SameSizes.refl _
  | reloadNextTail call b i =>
      rw [hpc] at hstep
      cases call <;> cases hstep
      · dsimp only
        refine sameSizes_modify _ _ ?_
        exact fun _ => rfl
      · dsimp only
        refine sameSizes_modify _ _ ?_
        exact fun _ => rfl
      · exact SameSizes.refl _
  | take call b i =>
      rw [hpc] at hstep
      obtain ⟨x, -, hstep⟩ := Option.map_eq_some_iff.mp hstep
      cases call <;> cases hstep
      · dsimp only
        refine sameSizes_modify _ _ ?_
        exact fun _ => rfl
      · dsimp only
        refine sameSizes_modify _ _ ?_
        exact fun _ => rfl
      · exact SameSizes.refl _
  | readNext call b =>
      rw [hpc] at hstep
      cases hstep
      exact SameSizes.refl _
  | setFrontBlock call b i =>
      rw [hpc] at hstep
      cases hstep
      exact ⟨rfl, rfl, fun _ => rfl⟩
  | _ =>
      rw [hpc] at hstep
      cases hstep
      dsimp only [answered]
      refine sameSizes_modify _ _ ?_
      exact fun _ => rfl

/-- The steps of the writer keep the blocks and their sizes, or add one block, which is
not too large. -/
theorem produce_sizes {maxBlockSize : ℕ} {s s' : System α}
    (hstep : s.produce maxBlockSize = some s') :
    SameSizes s.queue s'.queue ∨ OneMore s.queue s'.queue ∧
      (s.queue.largestBlockSize ≤ 2 * maxBlockSize →
        s'.queue.largestBlockSize ≤ 2 * maxBlockSize) := by
  unfold produce at hstep
  cases hpc : s.producer with
  | idle =>
      rw [hpc] at hstep
      cases hstep
  | checkNext mode x b =>
      rw [hpc] at hstep
      dsimp only at hstep
      split_ifs at hstep
      · cases hstep
        exact .inl (SameSizes.refl _)
      · cases mode <;> cases hstep <;> exact .inl (SameSizes.refl _)
  | setTailBlock x b =>
      rw [hpc] at hstep
      cases hstep
      exact .inl ⟨rfl, rfl, fun _ => rfl⟩
  | newBlock x b =>
      rw [hpc] at hstep
      cases hstep
      refine .inr ⟨⟨rfl, ?_, fun c hc => ?_, ?_⟩, ?_⟩
      · dsimp only
        split_ifs <;> omega
      · dsimp only
        rw [Function.update_of_ne hc]
      · dsimp only
        rw [Function.update_self]
        rfl
      · dsimp only
        split_ifs <;> omega
  | _ =>
      rw [hpc] at hstep
      cases hstep
      dsimp only [offered]
      refine .inl (sameSizes_modify _ _ ?_)
      exact fun _ => rfl

theorem Valid.allocated_pos {s : System α} (hs : s.Valid) : 1 ≤ s.queue.allocated := by
  obtain ⟨used, free, h⟩ := hs
  obtain ⟨hpos, hle⟩ := h.laid.allocated _ h.mem_ring_frontBlock
  exact Nat.succ_le_of_lt (hpos.trans_le hle)

theorem step_spacious {maxBlockSize n : ℕ} (s : System α) (l : Label α)
    (s' : System α) (hs : s.Valid ∧ s.queue.Spacious n)
    (hstep : s.step maxBlockSize l = some s') : s'.Valid ∧ s'.queue.Spacious n := by
  obtain ⟨hvalid, hspacious⟩ := hs
  refine ⟨step_valid s l s' hvalid hstep, ?_⟩
  cases l with
  | consumer => exact hspacious.of_sameSizes (consume_sameSizes hstep)
  | producer =>
      rcases produce_sizes hstep with h | h
      · exact hspacious.of_sameSizes h
      · exact hspacious.of_oneMore h.1 hvalid.allocated_pos
  | outOfMemory =>
      simp only [step, failAllocation] at hstep
      split at hstep
      · cases hstep
        exact hspacious
      · cases hstep
  | enqueue mode x =>
      simp only [step] at hstep
      split at hstep
      · cases hstep
        exact hspacious
      · cases hstep
  | dequeue call =>
      simp only [step] at hstep
      split at hstep
      · cases hstep
        exact hspacious
      · cases hstep

/-- Where the reader goes, the writer is not kept out. -/
theorem Inv.consume_frontBlock {s : System α} {used free : List Pointer}
    (h : s.Inv used free) {s' : System α} (hstep : s.consume = some s') :
    (s'.queue.heap s.queue.tailBlock).next = (s.queue.heap s.queue.tailBlock).next ∧
      (s'.queue.frontBlock = s.queue.frontBlock ∨
        (s.queue.heap s.queue.tailBlock).next ≠ s'.queue.frontBlock) := by
  have hmodify : ∀ (b : Pointer) (f : Block α → Block α),
      (∀ block, (f block).next = block.next) →
        ((s.queue.modify b f).heap s.queue.tailBlock).next =
          (s.queue.heap s.queue.tailBlock).next := by
    intro b f hf
    rw [ReaderWriterQueue.modify_heap]
    split_ifs with heq
    · rw [hf, heq]
    · rfl
  unfold consume at hstep
  cases hpc : s.consumer with
  | idle =>
      rw [hpc] at hstep
      cases hstep
  | checkTailBlock call b =>
      rw [hpc] at hstep
      dsimp only at hstep
      split_ifs at hstep <;> cases hstep <;> exact ⟨rfl, .inl rfl⟩
  | reloadNextTail call b i =>
      rw [hpc] at hstep
      cases call <;> cases hstep
      · dsimp only
        refine ⟨hmodify _ _ ?_, .inl rfl⟩
        exact fun _ => rfl
      · dsimp only
        refine ⟨hmodify _ _ ?_, .inl rfl⟩
        exact fun _ => rfl
      · exact ⟨rfl, .inl rfl⟩
  | take call b i =>
      rw [hpc] at hstep
      obtain ⟨x, -, hstep⟩ := Option.map_eq_some_iff.mp hstep
      cases call <;> cases hstep
      · dsimp only
        refine ⟨hmodify _ _ ?_, .inl rfl⟩
        exact fun _ => rfl
      · dsimp only
        refine ⟨hmodify _ _ ?_, .inl rfl⟩
        exact fun _ => rfl
      · exact ⟨rfl, .inl rfl⟩
  | readNext call b =>
      rw [hpc] at hstep
      cases hstep
      exact ⟨rfl, .inl rfl⟩
  | setFrontBlock call b i =>
      have hconsumer := h.consumer
      rw [hpc] at hstep hconsumer
      cases hstep
      obtain ⟨-, hb, -⟩ := hconsumer
      refine ⟨rfl, .inr ?_⟩
      rw [h.laid.next_tailBlock]
      cases hfree : free.head? with
      | none => exact (h.ne_frontBlock hb).symm
      | some c =>
          exact (h.laid.ne_of_mem (List.mem_of_getElem? hb)
            (List.mem_of_head? hfree)).symm
  | _ =>
      rw [hpc] at hstep
      cases hstep
      dsimp only [answered]
      refine ⟨hmodify _ _ ?_, .inl rfl⟩
      exact fun _ => rfl

/-- How the writer comes to find its block full. -/
theorem reloadFront_of_checkNext {maxBlockSize : ℕ} {s s' : System α}
    {mode : AllocationMode} {x : α} {b : Pointer}
    (hstep : s.produce maxBlockSize = some s')
    (hpc : s'.producer = .checkNext mode x b) :
    ∃ i j, s.producer = .reloadFront mode x b i j ∧ j = (s.queue.heap b).front ∧
      (s'.queue.heap b).next = (s.queue.heap b).next ∧
      s'.queue.frontBlock = s.queue.frontBlock := by
  unfold produce at hstep
  cases hold : s.producer with
  | reloadFront mode' x' b' i j =>
      rw [hold] at hstep
      cases hstep
      dsimp only at hpc
      split_ifs at hpc with hne
      cases hpc
      refine ⟨i, j, rfl, not_not.mp hne, ?_, rfl⟩
      dsimp only
      rw [ReaderWriterQueue.modify_heap_self]
  | idle =>
      rw [hold] at hstep
      cases hstep
  | checkNext mode' x' b' =>
      rw [hold] at hstep
      dsimp only at hstep
      split_ifs at hstep
      · cases hstep
        cases hpc
      · cases mode' <;> cases hstep <;> cases hpc
  | _ =>
      rw [hold] at hstep
      cases hstep
      cases hpc

theorem checkNext_of_newBlock {maxBlockSize : ℕ} {s s' : System α} {x : α} {b : Pointer}
    (hstep : s.produce maxBlockSize = some s') (hpc : s'.producer = .newBlock x b) :
    ∃ mode, s.producer = .checkNext mode x b ∧
      (s.queue.heap b).next = s.queue.frontBlock := by
  unfold produce at hstep
  cases hold : s.producer with
  | checkNext mode x' b' =>
      rw [hold] at hstep
      dsimp only at hstep
      split_ifs at hstep with hnext
      · cases hstep
        cases hpc
      · cases mode <;> cases hstep <;> cases hpc
        exact ⟨_, rfl, not_not.mp hnext⟩
  | reloadFront mode' x' b' i j =>
      rw [hold] at hstep
      cases hstep
      dsimp only at hpc
      split_ifs at hpc
  | idle =>
      rw [hold] at hstep
      cases hstep
  | _ =>
      rw [hold] at hstep
      cases hstep
      cases hpc

theorem findsFull_cause {maxBlockSize n : ℕ} (s : System α) (l : Label α)
    (s' : System α) (hs : s.Valid ∧ s.queue.Spacious n)
    (hstep : s.step maxBlockSize l = some s') (hfinds : s'.FindsFull) :
    s.FindsFull ∨ n ≤ s.held.length := by
  obtain ⟨⟨used, free, h⟩, hspacious⟩ := hs
  cases l with
  | enqueue mode x =>
      cases hidle : s.producer with
      | idle =>
          simp only [step, hidle, Option.some_inj] at hstep
          subst hstep
          exact absurd hfinds (not_findsFull_beginEnqueue s mode x)
      | _ =>
          simp only [step, hidle] at hstep
          cases hstep
  | producer =>
      rcases hfinds with ⟨mode, x, b, hpc, hnext⟩ | ⟨x, b, hpc⟩
      · obtain ⟨i, j, hold, hj, hnext', hfront⟩ := reloadFront_of_checkNext hstep hpc
        have hproducer := h.producer
        rw [hold] at hproducer
        obtain ⟨rfl, rfl, rfl⟩ := hproducer
        rw [hnext', hfront] at hnext
        have hnil := h.laid.free_eq_nil hnext
        subst hnil
        refine .inr (h.le_length_held ?_ hspacious hj)
        rw [hold]
        exact ⟨fun _ _ => id, fun _ => id, fun _ => id⟩
      · obtain ⟨mode, hold, hnext⟩ := checkNext_of_newBlock hstep hpc
        exact .inl (.inl ⟨mode, x, b, hold, hnext⟩)
  | outOfMemory =>
      simp only [step, failAllocation] at hstep
      split at hstep
      · cases hstep
        rcases hfinds with ⟨mode, x, b, hpc, -⟩ | ⟨x, b, hpc⟩ <;> cases hpc
      · cases hstep
  | dequeue call =>
      simp only [step] at hstep
      split at hstep
      · cases hstep
        exact .inl hfinds
      · cases hstep
  | consumer =>
      obtain ⟨-, hsame, -⟩ := h.pulls_consume hstep
      obtain ⟨hnext', hfront⟩ := h.consume_frontBlock hstep
      rcases hfinds with ⟨mode, x, b, hpc, hnext⟩ | ⟨x, b, hpc⟩
      · rw [hsame] at hpc
        have hproducer := h.producer
        rw [hpc] at hproducer
        obtain ⟨rfl, -⟩ := hproducer
        rw [hnext'] at hnext
        rcases hfront with hfront | hfront
        · exact .inl (.inl ⟨mode, x, _, hpc, hnext.trans hfront⟩)
        · exact absurd hnext hfront
      · exact .inl (.inr ⟨x, b, hsame ▸ hpc⟩)

theorem findsFull_of_refused {maxBlockSize : ℕ} {s s' : System α} {l : Label α} {x : α}
    (hs : s.Valid) (hstep : s.step maxBlockSize l = some s')
    (hoffer : s'.offers = s.offers ++ [(x, false)]) : s.FindsFull := by
  have hne : ∀ o : List (α × Bool), o ≠ o ++ [(x, false)] := fun o ho => by
    simpa using congrArg List.length ho
  obtain ⟨used, free, h⟩ := hs
  cases l with
  | enqueue mode y =>
      simp only [step] at hstep
      split at hstep
      · cases hstep
        exact absurd hoffer (hne _)
      · cases hstep
  | dequeue call =>
      simp only [step] at hstep
      split at hstep
      · cases hstep
        exact absurd hoffer (hne _)
      · cases hstep
  | consumer =>
      obtain ⟨-, -, hsame, -⟩ := h.pulls_consume hstep
      rw [hsame] at hoffer
      exact absurd hoffer (hne _)
  | outOfMemory =>
      simp only [step, failAllocation] at hstep
      split at hstep
      · rename_i y b hpc
        exact .inr ⟨y, b, hpc⟩
      · cases hstep
  | producer =>
      simp only [step, produce] at hstep
      cases hpc : s.producer with
      | idle =>
          rw [hpc] at hstep
          cases hstep
      | checkNext mode y b =>
          rw [hpc] at hstep
          dsimp only at hstep
          split_ifs at hstep with hnext
          · cases hstep
            exact absurd hoffer (hne _)
          · exact .inl ⟨mode, y, b, hpc, not_not.mp hnext⟩
      | setTail y b i j =>
          rw [hpc] at hstep
          cases hstep
          have heq := List.append_cancel_left hoffer
          simp at heq
      | setTailBlock y b =>
          rw [hpc] at hstep
          cases hstep
          have heq := List.append_cancel_left hoffer
          simp at heq
      | _ =>
          rw [hpc] at hstep
          cases hstep
          exact absurd hoffer (hne _)

/-- A call of the writer that is refused has seen, at some moment between its beginning
and its return, a queue that holds at least as many elements as it was made for (one of
them may be in the hands of a call of the reader that has not returned). -/
theorem refused_only_if_full {maxBlockSize maxSize : ℕ}
    (h : Sizes maxBlockSize maxSize) {before during : List (Label α)}
    {mode : AllocationMode} {x : α} {l : Label α} {s t u v : System α}
    (hbefore : run (step maxBlockSize) (initial maxBlockSize maxSize) before = some s)
    (hcall : s.step maxBlockSize (.enqueue mode x) = some t)
    (hduring : run (step maxBlockSize) t during = some u)
    (hreturn : u.step maxBlockSize l = some v)
    (hrefused : v.offers = u.offers ++ [(x, false)]) :
    Sometime (step maxBlockSize) (fun w => maxSize ≤ w.held.length) t during := by
  have hs := run_invariant step_spacious ⟨initial_valid h, create_spacious h⟩ hbefore
  have ht := step_spacious s _ t hs hcall
  have hu := run_invariant step_spacious ht hduring
  refine sometime_of_run step_spacious findsFull_cause ht hduring ?_
    (findsFull_of_refused hu.1 hreturn hrefused)
  cases hidle : s.producer with
  | idle =>
      simp only [step, hidle, Option.some_inj] at hcall
      subst hcall
      exact not_findsFull_beginEnqueue s mode x
  | _ =>
      simp only [step, hidle] at hcall
      cases hcall

/-- The one slot of the queue is taken. -/
theorem refused_only_if_full_second :
    ∃ s t, run (step 2) (initial 2 1) [.enqueue .cannotAlloc 7, .producer, .producer] =
        some s ∧ s.step 2 (.enqueue .cannotAlloc 8) = some t ∧
      Sometime (step 2) (fun w => 1 ≤ w.held.length) t [.producer] :=
  ⟨_, _, rfl, rfl, refused_only_if_full (l := .producer) sizes_two_one
    (show run _ _ [.enqueue .cannotAlloc 7, .producer, .producer] = some _ from rfl) rfl
    rfl rfl rfl⟩

end System

end Moodycamel

end Vendored

end Async

end Kclpp
