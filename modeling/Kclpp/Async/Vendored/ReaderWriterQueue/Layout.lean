import Kclpp.Async.Vendored.ReaderWriterQueue.Basic

/-!
# How the blocks lie

The blocks are a ring: first the used ones, from the front block to the tail block,
then the free ones. `Laid` says so of two lists, and `Sound` what holds of every
block by itself: its size is a power of two, and the two local copies err on the safe
side. `Sound.front_ne_tail` and `Sound.succ_tail_ne` are what each thread may
conclude from its copy of the other's variable.
-/

namespace Kclpp

namespace Async

namespace Vendored

namespace Moodycamel

open CircularBuffer LinkedRing

variable {α : Type*}

namespace Block

/-- The indices are in range, the reader's copy of the tail is behind the tail, and
the writer's copy of the front is behind the front. -/
structure Sound (block : Block α) : Prop where
  size : ∃ k, block.size = 2 ^ k
  sizeMask : 1 ≤ block.sizeMask
  front : block.front < block.size
  tail : block.tail < block.size
  localTail : block.localTail < block.size
  localFront : block.localFront < block.size
  behindTail : occupied block.size block.front block.localTail ≤
    occupied block.size block.front block.tail
  behindFront : occupied block.size block.front block.tail ≤
    occupied block.size block.localFront block.tail

/-- The next slot of the tail is the front one. -/
def Full (block : Block α) : Prop := succ block.size block.tail = block.front

theorem size_pos (block : Block α) : 0 < block.size := Nat.succ_pos _

theorem Sound.and_sizeMask {block : Block α} (h : block.Sound) (i : ℕ) :
    (i + 1) &&& block.sizeMask = succ block.size i := by
  obtain ⟨k, hk⟩ := h.size
  have hmask : block.sizeMask = 2 ^ k - 1 := by
    rw [← hk]
    rfl
  rw [hmask, hk, and_eq_succ]

/-- A block that does not look empty to the reader is not empty. -/
theorem Sound.front_ne_tail {block : Block α} (h : block.Sound)
    (hlocal : block.front ≠ block.localTail) : block.front ≠ block.tail := by
  have hpos : occupied block.size block.front block.localTail ≠ 0 := by
    rwa [Ne, occupied_eq_zero_iff h.front h.localTail]
  rw [Ne, ← occupied_eq_zero_iff h.front h.tail]
  have hle := h.behindTail
  omega

/-- A block that does not look full to the writer is not full. -/
theorem Sound.succ_tail_ne {block : Block α} (h : block.Sound)
    (hlocal : succ block.size block.tail ≠ block.localFront) :
    succ block.size block.tail ≠ block.front := by
  rw [Ne, succ_eq_front_iff h.localFront h.tail] at hlocal
  rw [Ne, succ_eq_front_iff h.front h.tail]
  have hle := h.behindFront
  have hlt := occupied_lt block.size_pos block.localFront block.tail
  omega

theorem Sound.front_ne_tail_of_full {block : Block α} (h : block.Sound)
    (hfull : block.Full) : block.front ≠ block.tail := by
  rw [Full, succ_eq_front_iff h.front h.tail] at hfull
  rw [Ne, ← occupied_eq_zero_iff h.front h.tail]
  have hmask := h.sizeMask
  have hsize : block.size = block.sizeMask + 1 := rfl
  omega

theorem Sound.elements_eq_nil {block : Block α} (h : block.Sound)
    (hempty : block.front = block.tail) : block.elements = [] := by
  rw [elements, ← hempty, slots_self h.front, List.filterMap_nil]

theorem Sound.elements_eq_cons {block : Block α} (h : block.Sound)
    (hne : block.front ≠ block.tail) {x : α} (hx : block.data block.front = some x) :
    block.elements =
      x :: (slots block.size (succ block.size block.front) block.tail).filterMap
        block.data := by
  rw [elements, slots_of_ne h.front h.tail hne, List.filterMap_cons_some hx]

theorem Sound.elements_destroy_front {block : Block α} (h : block.Sound)
    (hne : block.front ≠ block.tail) {x : α} (hx : block.data block.front = some x) :
    x :: ({ block with data := Function.update block.data block.front none } :
      Block α).elements = block.elements := by
  have hslots := slots_of_ne h.front h.tail hne
  have hnotMem := front_notMem_slots_succ h.front h.tail hne
  rw [h.elements_eq_cons hne hx]
  refine congrArg (x :: ·) ?_
  change (slots block.size block.front block.tail).filterMap _ = _
  rw [hslots, List.filterMap_cons_none (Function.update_self _ _ _)]
  refine List.filterMap_congr fun i hi => ?_
  exact Function.update_of_ne (ne_of_mem_of_not_mem hi hnotMem) _ _

theorem Sound.elements_advance_front {block : Block α} (h : block.Sound)
    (hne : block.front ≠ block.tail) (hraw : block.data block.front = none) :
    ({ block with front := succ block.size block.front } : Block α).elements =
      block.elements := by
  have hslots := slots_of_ne h.front h.tail hne
  rw [elements, elements, hslots, List.filterMap_cons_none hraw]
  rfl

theorem Sound.elements_advance_tail {block : Block α} (h : block.Sound)
    (hroom : succ block.size block.tail ≠ block.front) {x : α}
    (hx : block.data block.tail = some x) :
    ({ block with tail := succ block.size block.tail } : Block α).elements =
      block.elements ++ [x] := by
  have hslots := slots_succ_tail h.front h.tail hroom
  change (slots block.size block.front (succ block.size block.tail)).filterMap _ = _
  rw [hslots, List.filterMap_append, List.filterMap_cons_some hx]
  rfl

theorem Sound.elements_construct_tail {block : Block α} (h : block.Sound) (x : α) :
    ({ block with data := Function.update block.data block.tail (some x) } :
      Block α).elements = block.elements := by
  have hnotMem := tail_notMem_slots h.front h.tail
  refine List.filterMap_congr fun i hi => ?_
  exact Function.update_of_ne (ne_of_mem_of_not_mem hi hnotMem) _ _

/-- With a copy of the tail that is as good as the one before, or better, the block
is sound. -/
theorem Sound.set_localTail {block : Block α} (h : block.Sound) {localTail : ℕ}
    (hlt : localTail < block.size)
    (hle : occupied block.size block.front localTail ≤
      occupied block.size block.front block.tail) :
    ({ block with localTail := localTail } : Block α).Sound where
  size := h.size
  sizeMask := h.sizeMask
  front := h.front
  tail := h.tail
  localTail := hlt
  localFront := h.localFront
  behindTail := hle
  behindFront := h.behindFront

theorem Sound.reload_tail {block : Block α} (h : block.Sound) :
    ({ block with localTail := block.tail } : Block α).Sound :=
  h.set_localTail h.tail le_rfl

theorem Sound.reload_front {block : Block α} (h : block.Sound) :
    ({ block with localFront := block.front } : Block α).Sound where
  size := h.size
  sizeMask := h.sizeMask
  front := h.front
  tail := h.tail
  localTail := h.localTail
  localFront := h.front
  behindTail := h.behindTail
  behindFront := le_rfl

theorem Sound.set_data {block : Block α} (h : block.Sound) (data : ℕ → Option α) :
    ({ block with data := data } : Block α).Sound where
  size := h.size
  sizeMask := h.sizeMask
  front := h.front
  tail := h.tail
  localTail := h.localTail
  localFront := h.localFront
  behindTail := h.behindTail
  behindFront := h.behindFront

theorem Sound.set_next {block : Block α} (h : block.Sound) (next : Pointer) :
    ({ block with next := next } : Block α).Sound where
  size := h.size
  sizeMask := h.sizeMask
  front := h.front
  tail := h.tail
  localTail := h.localTail
  localFront := h.localFront
  behindTail := h.behindTail
  behindFront := h.behindFront

theorem Sound.advance_tail {block : Block α} (h : block.Sound)
    (hroom : succ block.size block.tail ≠ block.localFront) :
    ({ block with tail := succ block.size block.tail } : Block α).Sound where
  size := h.size
  sizeMask := h.sizeMask
  front := h.front
  tail := succ_lt block.size_pos _
  localTail := h.localTail
  localFront := h.localFront
  behindTail := by
    have heq := occupied_succ_tail h.front h.tail (h.succ_tail_ne hroom)
    exact h.behindTail.trans (heq ▸ Nat.le_succ _)
  behindFront := by
    have heq := occupied_succ_tail h.front h.tail (h.succ_tail_ne hroom)
    have heq' := occupied_succ_tail h.localFront h.tail hroom
    exact heq ▸ heq' ▸ Nat.succ_le_succ h.behindFront

theorem Sound.advance_front {block : Block α} (h : block.Sound)
    (hlocal : block.front ≠ block.localTail) :
    ({ block with front := succ block.size block.front } : Block α).Sound where
  size := h.size
  sizeMask := h.sizeMask
  front := succ_lt block.size_pos _
  tail := h.tail
  localTail := h.localTail
  localFront := h.localFront
  behindTail := by
    have heq := occupied_succ_front h.front h.tail (h.front_ne_tail hlocal)
    have heq' := occupied_succ_front h.front h.localTail hlocal
    have hle := h.behindTail
    change occupied block.size (succ block.size block.front) block.localTail ≤
      occupied block.size (succ block.size block.front) block.tail
    omega
  behindFront := by
    have heq := occupied_succ_front h.front h.tail (h.front_ne_tail hlocal)
    have hle := h.behindFront
    change occupied block.size (succ block.size block.front) block.tail ≤
      occupied block.size block.localFront block.tail
    omega

end Block

/-- The used blocks, from the front block to the tail block, and the free ones behind
them are a ring. -/
structure Laid (queue : ReaderWriterQueue α) (used free : List Pointer) : Prop where
  linked : Linked (fun b => (queue.heap b).next) (used ++ free)
  nodup : (used ++ free).Nodup
  front : used.head? = some queue.frontBlock
  tail : used.getLast? = some queue.tailBlock
  allocated : ∀ b ∈ used ++ free, nullptr < b ∧ b ≤ queue.allocated

namespace Laid

variable {queue queue' : ReaderWriterQueue α} {used free : List Pointer}

theorem frontBlock_mem (h : Laid queue used free) : queue.frontBlock ∈ used :=
  List.mem_of_head? h.front

theorem tailBlock_mem (h : Laid queue used free) : queue.tailBlock ∈ used :=
  List.mem_of_getLast? h.tail

theorem exists_used_eq_cons (h : Laid queue used free) :
    ∃ rest, used = queue.frontBlock :: rest := by
  obtain ⟨rest, hrest⟩ := List.head?_eq_some_iff.mp h.front
  exact ⟨rest, hrest⟩

theorem exists_used_eq_append (h : Laid queue used free) :
    ∃ before, used = before ++ [queue.tailBlock] :=
  List.getLast?_eq_some_iff.mp h.tail

theorem ne_of_mem {b c : Pointer} (h : Laid queue used free) (hb : b ∈ used)
    (hc : c ∈ free) : b ≠ c :=
  List.disjoint_iff_ne.mp (List.disjoint_of_nodup_append h.nodup) b hb c hc

theorem frontBlock_eq_tailBlock_iff (h : Laid queue used free) :
    queue.frontBlock = queue.tailBlock ↔ used = [queue.frontBlock] := by
  obtain ⟨rest, rfl⟩ := h.exists_used_eq_cons
  constructor
  · intro heq
    have htail := h.tail
    have hnodup := (List.nodup_append.mp h.nodup).1
    cases rest with
    | nil => rfl
    | cons b rest =>
        rw [← heq, List.getLast?_cons_cons] at htail
        exact absurd (List.mem_of_getLast? htail) (List.nodup_cons.mp hnodup).1
  · intro heq
    have htail := h.tail
    rw [heq] at htail
    simpa using htail

theorem two_le_length_iff (h : Laid queue used free) :
    2 ≤ used.length ↔ queue.frontBlock ≠ queue.tailBlock := by
  rw [Ne, h.frontBlock_eq_tailBlock_iff]
  obtain ⟨rest, rfl⟩ := h.exists_used_eq_cons
  cases rest with
  | nil => simp
  | cons b rest => simp

theorem getElem?_one (h : Laid queue used free)
    (hne : queue.frontBlock ≠ queue.tailBlock) :
    used[1]? = some (queue.heap queue.frontBlock).next := by
  rw [← h.two_le_length_iff] at hne
  obtain ⟨rest, rfl⟩ := h.exists_used_eq_cons
  cases rest with
  | nil => exact absurd hne (by simp)
  | cons b rest =>
      have hnext := next_eq (l := []) h.linked
      rw [List.getElem?_cons_succ, List.getElem?_cons_zero, hnext]

theorem used_eq_of_getElem?_one (h : Laid queue used free) {b : Pointer}
    (hb : used[1]? = some b) : ∃ rest, used = queue.frontBlock :: b :: rest := by
  obtain ⟨rest, rfl⟩ := h.exists_used_eq_cons
  cases rest with
  | nil => cases hb
  | cons c rest =>
      cases hb
      exact ⟨rest, rfl⟩

theorem ne_of_getElem?_one (h : Laid queue used free) {b : Pointer}
    (hb : used[1]? = some b) : queue.frontBlock ≠ queue.tailBlock := by
  obtain ⟨rest, rfl⟩ := h.used_eq_of_getElem?_one hb
  rw [← h.two_le_length_iff]
  simp

/-- The block behind the tail block is free, or it is the front block and no block is
free. -/
theorem next_tailBlock (h : Laid queue used free) :
    (queue.heap queue.tailBlock).next = (free.head?).getD queue.frontBlock := by
  obtain ⟨before, rfl⟩ := h.exists_used_eq_append
  cases free with
  | cons b free =>
      have hlinked := h.linked
      rw [List.append_assoc, List.singleton_append] at hlinked
      exact next_eq hlinked
  | nil =>
      have hlinked := h.linked
      have hfront := h.front
      rw [List.append_nil] at hlinked
      cases before with
      | nil =>
          rw [List.nil_append, List.head?_cons, Option.some_inj] at hfront
          rw [List.nil_append] at hlinked
          rw [@next_singleton _ (fun b => (queue.heap b).next) _ hlinked, hfront]
          rfl
      | cons c before =>
          rw [List.cons_append, List.head?_cons, Option.some_inj] at hfront
          rw [@next_last_eq _ (fun b => (queue.heap b).next) _ _ _ hlinked, hfront]
          rfl

theorem head?_free (h : Laid queue used free)
    (hne : (queue.heap queue.tailBlock).next ≠ queue.frontBlock) :
    free.head? = some (queue.heap queue.tailBlock).next := by
  have hnext := h.next_tailBlock
  cases free with
  | nil => exact absurd hnext hne
  | cons b free => exact congrArg some hnext.symm

theorem free_eq_nil (h : Laid queue used free)
    (heq : (queue.heap queue.tailBlock).next = queue.frontBlock) : free = [] := by
  have hnext := h.next_tailBlock
  cases free with
  | nil => rfl
  | cons b free =>
      exact absurd (heq.symm.trans hnext)
        (h.ne_of_mem h.frontBlock_mem List.mem_cons_self)

/-- The ring is a matter of the links and the two pointers. -/
theorem congr (h : Laid queue used free)
    (hnext : ∀ b ∈ used ++ free, (queue'.heap b).next = (queue.heap b).next)
    (hfront : queue'.frontBlock = queue.frontBlock)
    (htail : queue'.tailBlock = queue.tailBlock)
    (hallocated : queue.allocated ≤ queue'.allocated) : Laid queue' used free where
  linked := linked_congr hnext h.linked
  nodup := h.nodup
  front := hfront ▸ h.front
  tail := htail ▸ h.tail
  allocated b hb := ⟨(h.allocated b hb).1, (h.allocated b hb).2.trans hallocated⟩

theorem set_frontBlock {b : Pointer} {rest : List Pointer}
    (h : Laid queue (queue.frontBlock :: b :: rest) free) :
    Laid { queue with frontBlock := b } (b :: rest) (free ++ [queue.frontBlock]) where
  linked := by
    have hlinked := h.linked
    rw [List.cons_append, ← List.singleton_append, linked_append_comm,
      List.append_assoc] at hlinked
    exact hlinked
  nodup := by
    have hperm : List.Perm ((b :: rest) ++ (free ++ [queue.frontBlock]))
        (queue.frontBlock :: b :: rest ++ free) := by
      rw [← List.append_assoc]
      exact List.perm_append_comm
    exact hperm.nodup_iff.mpr h.nodup
  front := rfl
  tail := by
    have htail := h.tail
    rw [List.getLast?_cons_cons] at htail
    exact htail
  allocated c hc := by
    refine h.allocated c ?_
    simp only [List.mem_append, List.mem_cons, List.not_mem_nil, or_false] at hc ⊢
    tauto

theorem set_tailBlock {b : Pointer} {rest : List Pointer}
    (h : Laid queue used (b :: rest)) :
    Laid { queue with tailBlock := b } (used ++ [b]) rest where
  linked := by
    rw [List.append_assoc, List.singleton_append]
    exact h.linked
  nodup := by
    rw [List.append_assoc, List.singleton_append]
    exact h.nodup
  front := by
    rw [List.head?_append, h.front]
    rfl
  tail := List.getLast?_concat
  allocated c hc := by
    rw [List.append_assoc, List.singleton_append] at hc
    exact h.allocated c hc

theorem link_block (h : Laid queue used free) {n : Pointer} (hn : n ∉ used ++ free)
    (hallocated : nullptr < n ∧ n ≤ queue.allocated)
    (hnew : (queue.heap n).next = (queue.heap queue.tailBlock).next) :
    Laid (queue.setNext queue.tailBlock n) used (n :: free) := by
  have hne : n ≠ queue.tailBlock := fun heq =>
    hn (heq ▸ List.mem_append_left _ h.tailBlock_mem)
  obtain ⟨before, hused⟩ := h.exists_used_eq_append
  have hring : used ++ free = before ++ queue.tailBlock :: free := by
    rw [hused, List.append_assoc, List.singleton_append]
  have hring' : used ++ n :: free = before ++ queue.tailBlock :: n :: free := by
    rw [hused, List.append_assoc, List.singleton_append]
  refine ⟨?_, ?_, h.front, h.tail, ?_⟩
  · rw [hring']
    have hlinked : Linked (fun b => (queue.heap b).next)
        (before ++ queue.tailBlock :: free) := hring ▸ h.linked
    refine linked_insert hlinked (hring ▸ h.nodup) (hring ▸ hn) ?_ ?_ ?_
    · rw [ReaderWriterQueue.modify_heap_self]
    · rw [ReaderWriterQueue.modify_heap_of_ne _ _ hne, hnew]
    · intro b hb _
      rw [ReaderWriterQueue.modify_heap_of_ne _ _ hb]
  · exact (List.perm_middle.nodup_iff).mpr (List.nodup_cons.mpr ⟨hn, h.nodup⟩)
  · intro b hb
    rcases List.mem_cons.mp (List.perm_middle.mem_iff.mp hb) with rfl | hb
    · exact hallocated
    · exact h.allocated b hb

theorem usedBlocks_eq (h : Laid queue used free) : queue.usedBlocks = used := by
  obtain ⟨rest, rfl⟩ := h.exists_used_eq_cons
  have hlinked := h.linked
  rw [List.cons_append, linked_cons, List.append_assoc, ← List.cons_append] at hlinked
  refine path_eq hlinked.left_of_append (List.nodup_append.mp h.nodup).1 h.tail ?_
  have hrange : queue.frontBlock :: rest ⊆ List.range (queue.allocated + 1) := by
    intro b hb
    rw [List.mem_range]
    exact Nat.lt_succ_of_le (h.allocated b (List.mem_append_left _ hb)).2
  have hle := ((List.nodup_append.mp h.nodup).1.subperm hrange).length_le
  rw [List.length_cons, List.length_range] at hle
  exact Nat.le_of_succ_le_succ hle

theorem contents_eq (h : Laid queue used free) :
    queue.contents = used.flatMap fun b => (queue.heap b).elements := by
  rw [ReaderWriterQueue.contents, h.usedBlocks_eq]

theorem contents_congr (h : Laid queue used free) (h' : Laid queue' used free)
    (helements : ∀ b ∈ used, (queue'.heap b).elements = (queue.heap b).elements) :
    queue'.contents = queue.contents := by
  rw [h.contents_eq, h'.contents_eq]
  exact List.flatMap_congr helements

end Laid

end Moodycamel

end Vendored

end Async

end Kclpp
