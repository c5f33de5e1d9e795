import Kclpp.Async.Vendored.ReaderWriterQueue.Capacity

/-!
# The end of a queue

`destruct` is the destructor: it goes around the ring once, destroys what is between
the ends of each block and frees the block. Touching a block that has been freed, or
destroying an object where there is none, is a failure. `sizeApprox` goes the same way
and adds up.
-/

namespace Kclpp

namespace Async

namespace Vendored

namespace Moodycamel

open CircularBuffer LinkedRing Transition

variable {α : Type*}

namespace Block

/-- The inner loop of the destructor: the objects from a slot up to the tail are
destroyed. -/
def destroyFrom (block : Block α) : ℕ → ℕ → Option (List α)
  | 0, _ => none
  | fuel + 1, i =>
      if i = block.tail then some []
      else
        (block.data i).bind fun element =>
          (block.destroyFrom fuel ((i + 1) &&& block.sizeMask)).map (element :: ·)

theorem Sound.destroyFrom_eq {block : Block α} (h : block.Sound) {i fuel : ℕ}
    (hi : i < block.size)
    (hdata : ∀ j ∈ slots block.size i block.tail, (block.data j).isSome = true)
    (hfuel : occupied block.size i block.tail < fuel) :
    block.destroyFrom fuel i =
      some ((slots block.size i block.tail).filterMap block.data) := by
  induction fuel generalizing i with
  | zero => exact absurd hfuel (Nat.not_lt_zero _)
  | succ fuel ih =>
      rw [destroyFrom]
      split_ifs with htail
      · rw [htail, slots_self h.tail, List.filterMap_nil]
      · have hslots := slots_of_ne hi h.tail htail
        have hoccupied := occupied_succ_front hi h.tail htail
        rw [hslots] at hdata ⊢
        obtain ⟨x, hx⟩ := Option.isSome_iff_exists.mp (hdata i List.mem_cons_self)
        rw [hx, Option.bind_some, h.and_sizeMask, List.filterMap_cons_some hx,
          ih (succ_lt block.size_pos i) (fun j hj => hdata j (List.mem_cons_of_mem i hj))
            (by omega), Option.map_some]

end Block

namespace ReaderWriterQueue

/-- The outer loop of the destructor: the objects that it destroys and the blocks that
are freed when it is done. -/
def destroyBlocks (queue : ReaderWriterQueue α) (frontBlock : Pointer) :
    ℕ → Pointer → List Pointer → Option (List α × List Pointer)
  | 0, _, _ => none
  | fuel + 1, b, freed =>
      if b ∈ freed ∨ b = nullptr ∨ queue.allocated < b then none
      else
        let block := queue.heap b
        let nextBlock := block.next
        (block.destroyFrom block.size block.front).bind fun elements =>
          if nextBlock = frontBlock then some (elements, freed ++ [b])
          else
            (queue.destroyBlocks frontBlock fuel nextBlock (freed ++ [b])).map
              fun rest => (elements ++ rest.1, rest.2)

/-- `~ReaderWriterQueue`. -/
def destruct (queue : ReaderWriterQueue α) : Option (List α × List Pointer) :=
  queue.destroyBlocks queue.frontBlock queue.allocated queue.frontBlock []

/-- The outer loop goes along the blocks that are linked. -/
theorem destroyBlocks_eq {queue : ReaderWriterQueue α} {frontBlock b : Pointer}
    {l freed : List Pointer} {fuel : ℕ}
    (hchain : List.IsChain (fun b c => (queue.heap b).next = c)
      (b :: (l ++ [frontBlock])))
    (hfront : frontBlock ∉ l) (hnodup : (freed ++ b :: l).Nodup)
    (hallocated : ∀ c ∈ b :: l, nullptr < c ∧ c ≤ queue.allocated)
    (hdestroy : ∀ c ∈ b :: l,
      (queue.heap c).destroyFrom (queue.heap c).size (queue.heap c).front =
        some (queue.heap c).elements)
    (hfuel : l.length < fuel) :
    queue.destroyBlocks frontBlock fuel b freed =
      some ((b :: l).flatMap fun c => (queue.heap c).elements, freed ++ b :: l) := by
  induction l generalizing b freed fuel with
  | nil =>
      cases fuel with
      | zero => exact absurd hfuel (Nat.not_lt_zero _)
      | succ fuel =>
          have hnext := (List.isChain_cons_cons.mp hchain).1
          obtain ⟨hpos, hle⟩ := hallocated b List.mem_cons_self
          have hnew : b ∉ freed := fun hmem =>
            List.disjoint_of_nodup_append hnodup hmem List.mem_cons_self
          rw [destroyBlocks, if_neg (not_or.mpr ⟨hnew, not_or.mpr ⟨hpos.ne', hle.not_gt⟩⟩)]
          dsimp only
          rw [hdestroy b List.mem_cons_self, Option.bind_some, if_pos hnext,
            List.flatMap_singleton]
  | cons c l ih =>
      cases fuel with
      | zero => exact absurd hfuel (Nat.not_lt_zero _)
      | succ fuel =>
          obtain ⟨hnext, hrest⟩ := List.isChain_cons_cons.mp hchain
          obtain ⟨hpos, hle⟩ := hallocated b List.mem_cons_self
          have hnew : b ∉ freed := fun hmem =>
            List.disjoint_of_nodup_append hnodup hmem List.mem_cons_self
          have hne : c ≠ frontBlock := fun heq => hfront (heq ▸ List.mem_cons_self)
          rw [destroyBlocks, if_neg (not_or.mpr ⟨hnew, not_or.mpr ⟨hpos.ne', hle.not_gt⟩⟩)]
          dsimp only
          rw [hdestroy b List.mem_cons_self, Option.bind_some, hnext, if_neg hne,
            ih hrest (fun hmem => hfront (List.mem_cons_of_mem c hmem))
              (by rwa [List.append_assoc, List.singleton_append])
              (fun d hd => hallocated d (List.mem_cons_of_mem b hd))
              (fun d hd => hdestroy d (List.mem_cons_of_mem b hd))
              (Nat.lt_of_succ_lt_succ hfuel),
            Option.map_some, List.append_assoc, List.singleton_append,
            List.flatMap_cons (x := b)]

/-- `ReaderWriterQueue::size_approx`, from a block on. -/
def sizeApproxFrom (queue : ReaderWriterQueue α) (frontBlock : Pointer) :
    ℕ → Pointer → ℕ → ℕ
  | 0, _, result => result
  | fuel + 1, b, result =>
      let block := queue.heap b
      let blockFront := block.front
      let blockTail := block.tail
      let result := sizeT (result + (sizeT (blockTail + 2 ^ 64 - blockFront) &&&
        block.sizeMask))
      if block.next = frontBlock then result
      else queue.sizeApproxFrom frontBlock fuel block.next result

/-- `ReaderWriterQueue::size_approx`. -/
def sizeApprox (queue : ReaderWriterQueue α) : ℕ :=
  queue.sizeApproxFrom queue.frontBlock queue.allocated queue.frontBlock 0

theorem sizeApproxFrom_eq (queue : ReaderWriterQueue α) (frontBlock : Pointer)
    (fuel : ℕ) (b : Pointer) {result : ℕ} (h : result < 2 ^ 64) :
    queue.sizeApproxFrom frontBlock fuel b result =
      sizeT (result + ((circuit (fun c => (queue.heap c).next) frontBlock fuel b).map
        fun c => sizeT ((queue.heap c).tail + 2 ^ 64 - (queue.heap c).front) &&&
          (queue.heap c).sizeMask).sum) := by
  induction fuel generalizing b result with
  | zero =>
      rw [circuit, List.map_nil, List.sum_nil, Nat.add_zero]
      exact (Nat.mod_eq_of_lt h).symm
  | succ fuel ih =>
      rw [sizeApproxFrom, circuit]
      split_ifs with hnext
      · rw [List.map_singleton, List.sum_singleton]
      · rw [ih _ (sizeT_lt _), List.map_cons, List.sum_cons, ← Nat.add_assoc]
        exact Nat.mod_add_mod _ _ _

end ReaderWriterQueue

/-- The difference of the ends is taken in `size_t`, and the mask brings it into the
block. -/
theorem Block.Sound.sizeT_sub_and_sizeMask {block : Block α} (h : block.Sound)
    (hsize : block.size ≤ 2 ^ 64) :
    sizeT (block.tail + 2 ^ 64 - block.front) &&& block.sizeMask =
      occupied block.size block.front block.tail := by
  obtain ⟨k, hk⟩ := h.size
  have hmask : block.sizeMask = 2 ^ k - 1 := by
    rw [← hk]
    rfl
  have hfront := h.front
  obtain ⟨m, hm⟩ : 2 ^ k ∣ 2 ^ 64 :=
    pow_dvd_pow 2 ((Nat.pow_le_pow_iff_right Nat.one_lt_two).mp (hk ▸ hsize))
  have hdvd : (2 : ℕ) ^ k ∣ 2 ^ 64 := ⟨m, hm⟩
  have hm' : m = (m - 1) + 1 := by
    refine (Nat.succ_pred_eq_of_pos (Nat.pos_of_ne_zero fun hzero => ?_)).symm
    rw [hzero, Nat.mul_zero] at hm
    exact absurd hm (Nat.two_pow_pos 64).ne'
  rw [hmask, Nat.and_two_pow_sub_one_eq_mod, sizeT, Nat.mod_mod_of_dvd _ hdvd, hm, hm',
    Nat.mul_succ, occupied, hk]
  rw [hk] at hfront
  have heq : block.tail + (2 ^ k * (m - 1) + 2 ^ k) - block.front =
      (block.tail + 2 ^ k - block.front) + 2 ^ k * (m - 1) := by omega
  rw [heq, Nat.add_mul_mod_self_left]

namespace System

variable {s : System α} {used free : List Pointer}

theorem Inv.isSome_data (h : s.Inv used free) (hconsumer : s.consumer = .idle)
    {b : Pointer} (hb : b ∈ used ++ free) :
    ∀ i ∈ CircularBuffer.slots (s.queue.heap b).size (s.queue.heap b).front
        (s.queue.heap b).tail, ((s.queue.heap b).data i).isSome = true := by
  intro i hi
  rw [h.slots b hb i (lt_of_mem_slots (s.queue.heap b).size_pos hi), Holds, hconsumer]
  exact .inl ⟨hi, id⟩

/-- The free blocks are empty, so that the whole ring holds the contents. -/
theorem Inv.flatMap_ring (h : s.Inv used free) (hproducer : s.producer = .idle) :
    (used ++ free).flatMap (fun b => (s.queue.heap b).elements) = s.queue.contents := by
  have hfree : free.flatMap (fun b => (s.queue.heap b).elements) = [] := by
    refine List.flatMap_eq_nil_iff.mpr fun b hb => ?_
    refine (h.sound b (List.mem_append_right _ hb)).elements_eq_nil (h.spare b hb ?_)
    rw [hproducer]
    exact id
  rw [List.flatMap_append, hfree, List.append_nil, h.laid.contents_eq]

theorem Inv.exists_ring (h : s.Inv used free) :
    ∃ l, used ++ free = s.queue.frontBlock :: l ∧ s.queue.frontBlock ∉ l ∧
      l.length < s.queue.allocated ∧
      List.IsChain (fun b c => (s.queue.heap b).next = c)
        (s.queue.frontBlock :: (l ++ [s.queue.frontBlock])) := by
  obtain ⟨rest, hused⟩ := h.laid.exists_used_eq_cons
  have hlinked := h.laid.linked
  have hnodup := h.laid.nodup
  have hsubset : used ++ free ⊆ (List.range s.queue.allocated).map Nat.succ := by
    intro b hb
    obtain ⟨hpos, hle⟩ := h.laid.allocated b hb
    refine List.mem_map.mpr ⟨b - 1, List.mem_range.mpr ?_, Nat.succ_pred_eq_of_pos hpos⟩
    exact (Nat.pred_lt hpos.ne').trans_le hle
  have hle := (hnodup.subperm hsubset).length_le
  rw [List.length_map, List.length_range] at hle
  rw [hused, List.cons_append] at hlinked hnodup hle ⊢
  exact ⟨rest ++ free, rfl, (List.nodup_cons.mp hnodup).1, hle,
    (linked_cons _ _ _).mp hlinked⟩

/-- Where both threads are idle, the destructor destroys the contents and frees every
block once. -/
theorem Inv.destruct_eq (h : s.Inv used free) (hproducer : s.producer = .idle)
    (hconsumer : s.consumer = .idle) :
    s.queue.destruct = some (s.queue.contents, used ++ free) := by
  obtain ⟨l, hring, hfront, hlength, hchain⟩ := h.exists_ring
  have hnodup := h.laid.nodup
  have hallocated := h.laid.allocated
  have hdestroy : ∀ b ∈ used ++ free,
      (s.queue.heap b).destroyFrom (s.queue.heap b).size (s.queue.heap b).front =
        some (s.queue.heap b).elements := fun b hb =>
    (h.sound b hb).destroyFrom_eq (h.sound b hb).front (h.isSome_data hconsumer hb)
      (occupied_lt (s.queue.heap b).size_pos _ _)
  rw [← h.flatMap_ring hproducer]
  rw [hring] at hnodup hallocated hdestroy ⊢
  exact ReaderWriterQueue.destroyBlocks_eq hchain hfront hnodup hallocated hdestroy
    hlength

/-- In every run, once both threads are done, the destructor gets through: the objects
that it destroys are those that were put in and not taken out, and it frees each block
that was allocated once and touches none of them after that. -/
theorem destruct_of_run {maxBlockSize maxSize : ℕ} (h : Sizes maxBlockSize maxSize)
    {ls : List (Label α)} {s : System α}
    (hr : run (step maxBlockSize) (initial maxBlockSize maxSize) ls = some s)
    (hproducer : s.producer = .idle) (hconsumer : s.consumer = .idle) :
    ∃ destroyed freed, s.queue.destruct = some (destroyed, freed) ∧
      s.accepted = s.removed ++ destroyed ∧ freed.Nodup ∧
      ∀ b, b ∈ freed ↔ nullptr < b ∧ b ≤ s.queue.allocated := by
  have hbalanced := balanced_of_run h hr
  obtain ⟨used, free, hinv⟩ := valid_of_run h hr
  refine ⟨_, _, hinv.destruct_eq hproducer hconsumer, ?_, hinv.laid.nodup, fun b => ?_⟩
  · rw [hbalanced, pulled, hconsumer]
    exact congrArg (· ++ _) (List.append_nil _)
  · refine ⟨hinv.laid.allocated b, fun hb => hinv.mem_ring ?_ hb.1 hb.2⟩
    rw [hproducer]
    exact ⟨fun _ _ => id, fun _ => id, fun _ => id⟩

theorem destruct_firstTaken :
    ∃ s destroyed freed, run (step 2) (initial 2 1) firstTaken = some s ∧
      s.queue.destruct = some (destroyed, freed) ∧
      s.accepted = s.removed ++ destroyed ∧ freed.Nodup ∧
      ∀ b, b ∈ freed ↔ nullptr < b ∧ b ≤ s.queue.allocated := by
  obtain ⟨s, hs⟩ := exists_run_firstTaken
  have hidle : (run (step 2) (initial 2 1) firstTaken).map
      (fun s => (s.producer, s.consumer)) = some (.idle, .idle) := rfl
  rw [hs, Option.map_some, Option.some_inj, Prod.mk.injEq] at hidle
  obtain ⟨destroyed, freed, h⟩ := destruct_of_run sizes_two_one hs hidle.1 hidle.2
  exact ⟨s, destroyed, freed, hs, h⟩

theorem step_largestBlockSize_le {maxBlockSize n : ℕ} (s : System α) (l : Label α)
    (s' : System α)
    (hs : (s.Valid ∧ s.queue.Spacious n) ∧ s.queue.largestBlockSize ≤ 2 * maxBlockSize)
    (hstep : s.step maxBlockSize l = some s') :
    (s'.Valid ∧ s'.queue.Spacious n) ∧ s'.queue.largestBlockSize ≤ 2 * maxBlockSize := by
  refine ⟨step_spacious s l s' hs.1 hstep, ?_⟩
  have hle := hs.2
  cases l with
  | consumer => exact (consume_sameSizes hstep).largest ▸ hle
  | producer =>
      rcases produce_sizes hstep with h | h
      · exact h.largest ▸ hle
      · exact h.2 hle
  | outOfMemory =>
      simp only [step, failAllocation] at hstep
      split at hstep
      · cases hstep
        exact hle
      · cases hstep
  | enqueue mode x =>
      simp only [step] at hstep
      split at hstep
      · cases hstep
        exact hle
      · cases hstep
  | dequeue call =>
      simp only [step] at hstep
      split at hstep
      · cases hstep
        exact hle
      · cases hstep

theorem sizeApprox_of_run {maxBlockSize maxSize : ℕ} (h : Sizes maxBlockSize maxSize)
    {ls : List (Label α)} {s : System α}
    (hr : run (step maxBlockSize) (initial maxBlockSize maxSize) ls = some s)
    (hproducer : s.producer = .idle) (hconsumer : s.consumer = .idle) :
    s.queue.sizeApprox = sizeT s.queue.contents.length := by
  obtain ⟨⟨⟨used, free, hinv⟩, hspacious⟩, hlargest⟩ := run_invariant
    step_largestBlockSize_le ⟨⟨initial_valid h, create_spacious h⟩,
      h.create_largestBlockSize_le⟩ hr
  obtain ⟨l, hring, hfront, hlength, hchain⟩ := hinv.exists_ring
  have hfits := h.fits
  have hcount : ∀ b ∈ used ++ free,
      sizeT ((s.queue.heap b).tail + 2 ^ 64 - (s.queue.heap b).front) &&&
        (s.queue.heap b).sizeMask = (s.queue.heap b).elements.length := by
    intro b hb
    have hlt := hspacious.largest b (Finset.mem_Icc.mpr (hinv.laid.allocated b hb))
    have hsize : (s.queue.heap b).size = (s.queue.heap b).sizeMask + 1 := rfl
    rw [(hinv.sound b hb).sizeT_sub_and_sizeMask (by omega),
      hinv.length_elements hb fun i => ?_]
    rw [hconsumer]
    exact id
  rw [ReaderWriterQueue.sizeApprox,
    ReaderWriterQueue.sizeApproxFrom_eq _ _ _ _ (Nat.two_pow_pos 64),
    circuit_eq hchain hfront hlength, ← hring, Nat.zero_add,
    List.map_congr_left hcount, ← hinv.flatMap_ring hproducer, List.length_flatMap]

end System

end Moodycamel

end Vendored

end Async

end Kclpp
