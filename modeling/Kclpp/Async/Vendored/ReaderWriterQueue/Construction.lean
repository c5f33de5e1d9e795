import Kclpp.Async.Vendored.ReaderWriterQueue.Writer
import Kclpp.Util.PowersOfTwo

/-!
# Making a queue

The constructor turns the number of elements that the queue is to hold into one block
or several, and links them in a circle. `create_inv` is the invariant of a new queue.
`Spacious n` says that all blocks but any one of them have room for `n` elements: one
block may be given up, because the writer does not enter the front block.
-/

namespace Kclpp

namespace Async

namespace Vendored

namespace Moodycamel

open CircularBuffer PowersOfTwo

variable {α : Type*}

/-- A value of type `size_t`. -/
def sizeT (n : ℕ) : ℕ := n % 2 ^ 64

theorem sizeT_le (n : ℕ) : sizeT n ≤ n := Nat.mod_le _ _

theorem sizeT_lt (n : ℕ) : sizeT n < 2 ^ 64 := Nat.mod_lt _ (Nat.two_pow_pos 64)

def ceilToPow2 (x : ℕ) : ℕ :=
  let x := sizeT (x + (2 ^ 64 - 1))
  let x := x ||| x >>> 1
  let x := x ||| x >>> 2
  let x := x ||| x >>> 4
  let x := [1, 2, 4].foldl (fun x i => x ||| x >>> (i <<< 3)) x
  sizeT (x + 1)

/-- The bit trick finds the power of two, as long as there is one in the type. -/
theorem ceilToPow2_eq {x : ℕ} (hpos : 0 < x) (hle : x ≤ 2 ^ 63) :
    ceilToPow2 x = 2 ^ (x - 1).size := by
  have hlt : x - 1 < 2 ^ 63 := by
    have hpow := Nat.two_pow_pos 63
    omega
  have hwrap : sizeT (x + (2 ^ 64 - 1)) = x - 1 := by
    have hsum : x + (2 ^ 64 - 1) = (x - 1) + 2 ^ 64 := by omega
    rw [sizeT, hsum, Nat.add_mod_right]
    exact Nat.mod_eq_of_lt (hlt.trans (by norm_num))
  have hspread := (spread_one (x - 1)).or_shiftRight.or_shiftRight.or_shiftRight
    |>.or_shiftRight.or_shiftRight.or_shiftRight
  have heq := hspread.eq_two_pow_size_sub_one (hlt.trans (by norm_num))
  have hsize : (x - 1).size ≤ 63 := Nat.size_le.mpr hlt
  have hpow : 2 ^ (x - 1).size ≤ 2 ^ 63 := Nat.pow_le_pow_right Nat.two_pos hsize
  unfold ceilToPow2
  rw [hwrap]
  change sizeT (_ + 1) = _
  refine (congrArg (fun y => sizeT (y + 1)) heq).trans ?_
  rw [Nat.sub_add_cancel Nat.one_le_two_pow, sizeT]
  exact Nat.mod_eq_of_lt (hpow.trans_lt (by norm_num))

/-- The blocks that the constructor has made so far. -/
structure Blocks (α : Type*) where
  heap : Pointer → Block α
  allocated : ℕ
  firstBlock : Pointer
  lastBlock : Pointer

namespace Blocks

def start : Blocks α where
  heap := fun _ => makeBlock 0
  allocated := 0
  firstBlock := nullptr
  lastBlock := nullptr

def addBlock (largestBlockSize : ℕ) (blocks : Blocks α) : Blocks α :=
  let block := blocks.allocated + 1
  let heap := Function.update blocks.heap block (makeBlock largestBlockSize)
  let firstBlock := if blocks.firstBlock = nullptr then block else blocks.firstBlock
  let heap :=
    if blocks.firstBlock = nullptr then heap
    else Function.update heap blocks.lastBlock
      { heap blocks.lastBlock with next := block }
  let heap := Function.update heap block { heap block with next := firstBlock }
  { heap := heap, allocated := block, firstBlock := firstBlock, lastBlock := block }

/-- After `n + 1` turns, block `b` is linked to the one after it, and the last one to
the first. -/
structure Linked (size n : ℕ) (blocks : Blocks α) : Prop where
  allocated : blocks.allocated = n + 1
  firstBlock : blocks.firstBlock = 1
  lastBlock : blocks.lastBlock = n + 1
  heap : ∀ b, 1 ≤ b → b ≤ n + 1 → blocks.heap b =
    { (makeBlock size : Block α) with next := if b = n + 1 then 1 else b + 1 }

theorem linked_one (size : ℕ) : Linked size 0 (addBlock size (start : Blocks α)) := by
  refine ⟨rfl, rfl, rfl, fun b hle hge => ?_⟩
  have hb : b = 1 := le_antisymm hge hle
  subst hb
  simp [addBlock, start, nullptr]

theorem Linked.addBlock {size n : ℕ} {blocks : Blocks α} (h : blocks.Linked size n) :
    Linked size (n + 1) (blocks.addBlock size) := by
  have hfirst : (1 : Pointer) ≠ nullptr := Nat.one_ne_zero
  unfold Blocks.addBlock
  simp only [h.allocated, h.lastBlock, h.firstBlock, if_neg hfirst]
  refine ⟨rfl, rfl, rfl, fun b hle hge => ?_⟩
  dsimp only
  by_cases hlast : b = n + 2
  · subst hlast
    rw [Function.update_self, Function.update_of_ne (Nat.succ_ne_self _),
      Function.update_self, if_pos rfl]
  · rw [Function.update_of_ne hlast]
    by_cases hprev : b = n + 1
    · subst hprev
      rw [Function.update_self, Function.update_of_ne hlast,
        h.heap _ hle le_rfl, if_neg hlast]
    · rw [Function.update_of_ne hprev, Function.update_of_ne hlast,
        h.heap b hle (by omega), if_neg hprev, if_neg hlast]

theorem linked_iterate (size n : ℕ) :
    Linked size n ((addBlock size)^[n + 1] (start : Blocks α)) := by
  induction n with
  | zero => exact linked_one size
  | succ n ih =>
      rw [Function.iterate_succ_apply']
      exact ih.addBlock

end Blocks

namespace ReaderWriterQueue

/-- `initialBlockCount` and `largestBlockSize`. -/
def blocksFor (maxBlockSize maxSize : ℕ) : ℕ × ℕ :=
  let largestBlockSize := ceilToPow2 (maxSize + 1)
  if largestBlockSize > sizeT (maxBlockSize * 2) then
    (sizeT (maxSize + sizeT (maxBlockSize * 2) + (2 ^ 64 - 3)) / (maxBlockSize - 1),
      maxBlockSize)
  else (1, largestBlockSize)

def ofBlocks (largestBlockSize : ℕ) (blocks : Blocks α) : ReaderWriterQueue α where
  frontBlock := blocks.firstBlock
  tailBlock := blocks.firstBlock
  largestBlockSize := largestBlockSize
  heap := blocks.heap
  allocated := blocks.allocated

/-- `ReaderWriterQueue::ReaderWriterQueue`. -/
def create (maxBlockSize maxSize : ℕ) : ReaderWriterQueue α :=
  let sizes := blocksFor maxBlockSize maxSize
  ofBlocks sizes.2 ((Blocks.addBlock sizes.2)^[sizes.1] Blocks.start)

end ReaderWriterQueue

/-- What the constructor asserts of its arguments, and that its arithmetic does not
leave the type `size_t`. -/
structure Sizes (maxBlockSize maxSize : ℕ) : Prop where
  positive : 0 < maxSize
  powerOfTwo : ∃ k, maxBlockSize = 2 ^ (k + 1)
  fits : maxSize + maxBlockSize * 2 ≤ 2 ^ 63

namespace Sizes

variable {maxBlockSize maxSize : ℕ}

/-- What the constructor works out: the size of the blocks is a power of two, and
either there is one block with room for all, or all but one of them have it. -/
theorem blocksFor_spec (h : Sizes maxBlockSize maxSize) :
    ∃ count size k, ReaderWriterQueue.blocksFor maxBlockSize maxSize = (count + 1, size) ∧
      size = 2 ^ (k + 1) ∧
      (count = 0 ∧ maxSize ≤ size - 1 ∨ maxSize ≤ count * (size - 1)) := by
  obtain ⟨k, hk⟩ := h.powerOfTwo
  have hfits := h.fits
  have hpos := h.positive
  have htwo : 2 ≤ maxBlockSize := by
    rw [hk, pow_succ]
    exact Nat.le_mul_of_pos_left 2 (Nat.two_pow_pos k)
  have hbig : (2 : ℕ) ^ 63 + 2 ^ 63 = 2 ^ 64 := by norm_num
  have hdouble : sizeT (maxBlockSize * 2) = maxBlockSize * 2 :=
    Nat.mod_eq_of_lt (by omega)
  have hceil := ceilToPow2_eq (Nat.succ_pos maxSize) (by omega)
  unfold ReaderWriterQueue.blocksFor
  dsimp only
  rw [hdouble]
  split_ifs with hlarge
  · have hsum : sizeT (maxSize + maxBlockSize * 2 + (2 ^ 64 - 3)) =
        maxSize + maxBlockSize * 2 - 3 := by
      have heq : maxSize + maxBlockSize * 2 + (2 ^ 64 - 3) =
          (maxSize + maxBlockSize * 2 - 3) + 2 ^ 64 := by omega
      rw [sizeT, heq, Nat.add_mod_right]
      exact Nat.mod_eq_of_lt (by omega)
    rw [hsum]
    obtain ⟨m, hm⟩ : ∃ m, maxBlockSize = m + 2 := ⟨maxBlockSize - 2, by omega⟩
    have hdiv : (maxSize + maxBlockSize * 2 - 3) / (maxBlockSize - 1) =
        (maxSize + m) / (m + 1) + 1 := by
      rw [hm, show maxSize + (m + 2) * 2 - 3 = maxSize + m + (m + 1) by omega]
      exact Nat.add_div_right _ (Nat.succ_pos m)
    refine ⟨(maxSize + m) / (m + 1), maxBlockSize, k, by rw [hdiv], hk, .inr ?_⟩
    have hceil := Nat.div_add_mod (maxSize + m) (m + 1)
    have hmod : (maxSize + m) % (m + 1) < m + 1 := Nat.mod_lt _ (Nat.succ_pos m)
    rw [hm, show m + 2 - 1 = m + 1 by omega, Nat.mul_comm]
    omega
  · obtain ⟨j, hj⟩ : ∃ j, maxSize.size = j + 1 :=
      ⟨maxSize.size - 1, (Nat.succ_pred_eq_of_pos (Nat.size_pos.mpr hpos)).symm⟩
    refine ⟨0, _, j, rfl, ?_, .inl ⟨rfl, ?_⟩⟩
    · rw [hceil, Nat.succ_sub_one, hj]
    · rw [hceil, Nat.succ_sub_one]
      exact Nat.le_sub_one_of_lt (Nat.lt_size_self maxSize)

theorem blocksFor_snd_le (maxBlockSize maxSize : ℕ) :
    (ReaderWriterQueue.blocksFor maxBlockSize maxSize).2 ≤ 2 * maxBlockSize := by
  rcases hsizes : ReaderWriterQueue.blocksFor maxBlockSize maxSize with ⟨count, size⟩
  unfold ReaderWriterQueue.blocksFor at hsizes
  dsimp only at hsizes ⊢
  rw [Nat.mul_comm]
  split_ifs at hsizes with hlarge
  · cases hsizes
    exact Nat.le_mul_of_pos_right maxBlockSize Nat.two_pos
  · cases hsizes
    exact (not_lt.mp hlarge).trans (sizeT_le _)

end Sizes

namespace ReaderWriterQueue

variable {maxBlockSize maxSize : ℕ}

/-- What the constructor leaves: `count + 1` empty blocks of one size in a circle. -/
structure New (queue : ReaderWriterQueue α) (size count : ℕ) : Prop where
  frontBlock : queue.frontBlock = 1
  tailBlock : queue.tailBlock = 1
  largest : queue.largestBlockSize = size
  allocated : queue.allocated = count + 1
  heap : ∀ b, 1 ≤ b → b ≤ count + 1 → queue.heap b =
    { (makeBlock size : Block α) with next := if b = count + 1 then 1 else b + 1 }

theorem create_new {count size : ℕ}
    (h : blocksFor maxBlockSize maxSize = (count + 1, size)) :
    (create maxBlockSize maxSize : ReaderWriterQueue α).New size count := by
  have hlinked : ((Blocks.addBlock size)^[count + 1] (Blocks.start : Blocks α)).Linked
      size count := Blocks.linked_iterate size count
  rw [create, h]
  generalize (Blocks.addBlock size)^[count + 1] (Blocks.start : Blocks α) = blocks at *
  exact ⟨hlinked.firstBlock, hlinked.firstBlock, rfl, hlinked.allocated, hlinked.heap⟩

end ReaderWriterQueue

theorem Sizes.create_largestBlockSize_le {maxBlockSize maxSize : ℕ}
    (h : Sizes maxBlockSize maxSize) :
    (ReaderWriterQueue.create maxBlockSize maxSize :
      ReaderWriterQueue α).largestBlockSize ≤ 2 * maxBlockSize := by
  obtain ⟨count, size, k, heq, -⟩ := h.blocksFor_spec
  have hle := blocksFor_snd_le maxBlockSize maxSize
  rw [heq] at hle
  rw [(ReaderWriterQueue.create_new heq).largest]
  exact hle

theorem range_map_succ (count : ℕ) :
    (List.range (count + 1)).map Nat.succ =
      [1] ++ (List.range count).map (Nat.succ ∘ Nat.succ) := by
  rw [List.range_succ_eq_map, List.map_cons, List.map_map]
  rfl

/-- The blocks of a new queue are a ring: the first one is used and the others are
free. -/
theorem ReaderWriterQueue.New.laid {queue : ReaderWriterQueue α} {size count : ℕ}
    (h : queue.New size count) :
    Laid queue [1] ((List.range count).map (Nat.succ ∘ Nat.succ)) := by
  have hmem : ∀ b ∈ (List.range (count + 1)).map Nat.succ, 1 ≤ b ∧ b ≤ count + 1 := by
    intro b hb
    obtain ⟨i, hi, rfl⟩ := List.mem_map.mp hb
    exact ⟨Nat.succ_pos i, List.mem_range.mp hi⟩
  refine ⟨?_, ?_, ?_, ?_, ?_⟩
  · rw [← range_map_succ]
    change Cycle.Chain _ (((List.range count.succ : Cycle ℕ)).map Nat.succ)
    rw [Cycle.chain_map, Cycle.chain_range_succ]
    refine ⟨?_, fun m hm => ?_⟩
    · dsimp only
      rw [h.heap _ (Nat.succ_pos count) le_rfl]
      exact if_pos rfl
    · dsimp only
      rw [h.heap _ (Nat.succ_pos m) (by omega)]
      exact if_neg (by omega)
  · rw [← range_map_succ]
    exact List.nodup_range.map Nat.succ_injective
  · rw [h.frontBlock]
    rfl
  · rw [h.tailBlock]
    rfl
  · intro b hb
    rw [← range_map_succ] at hb
    rw [h.allocated]
    exact hmem b hb

theorem ReaderWriterQueue.New.inv {queue : ReaderWriterQueue α} {size count k : ℕ}
    (h : queue.New size count) (hsize : size = 2 ^ (k + 1)) :
    ({ queue := queue } : System α).Inv [1]
      ((List.range count).map (Nat.succ ∘ Nat.succ)) := by
  have hlaid := h.laid
  have hpos : 1 < 2 ^ (k + 1) := Nat.one_lt_two_pow (Nat.succ_ne_zero k)
  have hblock : ∀ b ∈ [1] ++ (List.range count).map (Nat.succ ∘ Nat.succ),
      (queue.heap b).size = 2 ^ (k + 1) ∧ (queue.heap b).front = 0 ∧
        (queue.heap b).tail = 0 ∧ (queue.heap b).localTail = 0 ∧
        (queue.heap b).localFront = 0 ∧ (queue.heap b).data = fun _ => none := by
    intro b hb
    obtain ⟨hge, hle⟩ := hlaid.allocated b hb
    rw [h.allocated] at hle
    rw [h.heap b hge hle]
    refine ⟨?_, rfl, rfl, rfl, rfl, rfl⟩
    change size - 1 + 1 = 2 ^ (k + 1)
    rw [hsize]
    exact Nat.sub_add_cancel hpos.le
  refine ⟨hlaid, fun b hb hle => .inl ?_, ⟨k, h.largest.trans hsize⟩, fun b hb => ?_, ?_,
    ?_, fun b hb _ => ?_, fun b hb i _ => ?_, trivial, trivial⟩
  · dsimp only at hle
    rw [h.allocated] at hle
    rw [← range_map_succ]
    refine List.mem_map.mpr ⟨b - 1, List.mem_range.mpr ?_, Nat.succ_pred_eq_of_pos hb⟩
    exact (Nat.pred_lt hb.ne').trans_le hle
  · obtain ⟨hsz, hf, ht, hlt, hlf, -⟩ := hblock b hb
    have hmask : (queue.heap b).size = (queue.heap b).sizeMask + 1 := rfl
    refine ⟨⟨k + 1, hsz⟩, by dsimp only; omega, ?_, ?_, ?_, ?_, ?_, ?_⟩
    all_goals
      dsimp only
      simp only [hf, ht, hlt, hlf, hsz, le_refl]
      try exact Nat.zero_lt_of_lt hpos
  · intro b hb hne
    rw [List.mem_singleton.mp hb] at hne
    exact absurd h.frontBlock.symm hne
  · intro htwo
    exact absurd htwo (by simp)
  · obtain ⟨-, hf, ht, -⟩ := hblock b (List.mem_append_right _ hb)
    exact hf.trans ht.symm
  · obtain ⟨hsz, hf, ht, -, -, hdata⟩ := hblock b hb
    dsimp only
    rw [System.Holds, hdata]
    dsimp only
    rw [hf, ht, slots_self (hsz ▸ Nat.zero_lt_of_lt hpos)]
    simp [Producer.Constructed]

end Moodycamel

end Vendored

end Async

end Kclpp
