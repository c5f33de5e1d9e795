import Mathlib

/-!
# Slots of a circular buffer

A buffer of `size` slots in which the occupied ones run from `front` up to, but
without, `tail`, around the end where they have to. `front = tail` is the empty
buffer, so a full one leaves a slot free: `succ_eq_front_iff`. `slots` lists the
occupied slots in their order; `slots_succ_tail` and `slots_of_ne` say what the
list gains at one end and loses at the other.
-/

namespace CircularBuffer

variable {size front tail : ℕ}

/-- The slot after slot `i`. -/
def succ (size i : ℕ) : ℕ := (i + 1) % size

/-- How many slots lie from `front` up to `tail`. -/
def occupied (size front tail : ℕ) : ℕ := (tail + size - front) % size

/-- The slots from `front` up to `tail`. -/
def slots (size front tail : ℕ) : List ℕ :=
  (List.range (occupied size front tail)).map fun k => (front + k) % size

theorem succ_lt (hsize : 0 < size) (i : ℕ) : succ size i < size :=
  Nat.mod_lt _ hsize

theorem succ_eq (htail : tail < size) :
    succ size tail = if tail + 1 = size then 0 else tail + 1 := by
  unfold succ
  split_ifs with h
  · rw [h, Nat.mod_self]
  · exact Nat.mod_eq_of_lt (by omega)

theorem occupied_eq (hfront : front < size) (htail : tail < size) :
    occupied size front tail =
      if front ≤ tail then tail - front else tail + size - front := by
  unfold occupied
  split_ifs with h
  · have heq : tail + size - front = (tail - front) + size := by omega
    rw [heq, Nat.add_mod_right]
    exact Nat.mod_eq_of_lt (by omega)
  · exact Nat.mod_eq_of_lt (by omega)

theorem occupied_lt (hsize : 0 < size) (front tail : ℕ) :
    occupied size front tail < size :=
  Nat.mod_lt _ hsize

@[simp] theorem occupied_self (hfront : front < size) :
    occupied size front front = 0 := by
  rw [occupied_eq hfront hfront, if_pos le_rfl, Nat.sub_self]

theorem occupied_eq_zero_iff (hfront : front < size) (htail : tail < size) :
    occupied size front tail = 0 ↔ front = tail := by
  rw [occupied_eq hfront htail]
  split_ifs <;> omega

theorem succ_eq_front_iff (hfront : front < size) (htail : tail < size) :
    succ size tail = front ↔ occupied size front tail + 1 = size := by
  rw [occupied_eq hfront htail, succ_eq htail]
  split_ifs <;> omega

theorem occupied_succ_tail (hfront : front < size) (htail : tail < size)
    (hroom : succ size tail ≠ front) :
    occupied size front (succ size tail) = occupied size front tail + 1 := by
  have hsucc := succ_lt (Nat.zero_lt_of_lt htail) tail
  rw [succ_eq htail] at hroom hsucc ⊢
  rw [occupied_eq hfront htail, occupied_eq hfront hsucc]
  split_ifs at hroom ⊢ <;> omega

theorem occupied_succ_front (hfront : front < size) (htail : tail < size)
    (hne : front ≠ tail) :
    occupied size (succ size front) tail + 1 = occupied size front tail := by
  have hsucc := succ_lt (Nat.zero_lt_of_lt hfront) front
  rw [succ_eq hfront] at hsucc ⊢
  rw [occupied_eq hfront htail, occupied_eq hsucc htail]
  split_ifs <;> omega

theorem length_slots (size front tail : ℕ) :
    (slots size front tail).length = occupied size front tail := by
  rw [slots, List.length_map, List.length_range]

@[simp] theorem slots_self (hfront : front < size) : slots size front front = [] := by
  rw [slots, occupied_self hfront, List.range_zero, List.map_nil]

theorem add_occupied_mod (hfront : front < size) (htail : tail < size) :
    (front + occupied size front tail) % size = tail := by
  rw [occupied_eq hfront htail]
  split_ifs with h
  · rw [Nat.add_sub_cancel' h]
    exact Nat.mod_eq_of_lt htail
  · rw [Nat.add_sub_cancel' (by omega), Nat.add_mod_right]
    exact Nat.mod_eq_of_lt htail

theorem slots_succ_tail (hfront : front < size) (htail : tail < size)
    (hroom : succ size tail ≠ front) :
    slots size front (succ size tail) = slots size front tail ++ [tail] := by
  rw [slots, occupied_succ_tail hfront htail hroom, List.range_succ, List.map_append,
    List.map_singleton, add_occupied_mod hfront htail]
  rfl

theorem slots_of_ne (hfront : front < size) (htail : tail < size)
    (hne : front ≠ tail) :
    slots size front tail = front :: slots size (succ size front) tail := by
  rw [slots, ← occupied_succ_front hfront htail hne, List.range_succ_eq_map,
    List.map_cons, List.map_map, Nat.add_zero, Nat.mod_eq_of_lt hfront]
  refine congrArg _ (List.map_congr_left fun k _ => ?_)
  rw [Function.comp_apply, succ, Nat.mod_add_mod, Nat.succ_eq_add_one]
  congr 1
  omega

theorem lt_of_mem_slots (hsize : 0 < size) {i : ℕ} (hi : i ∈ slots size front tail) :
    i < size := by
  obtain ⟨k, -, rfl⟩ := List.mem_map.mp hi
  exact Nat.mod_lt _ hsize

theorem mem_slots_iff (hfront : front < size) {i : ℕ} (hi : i < size) :
    i ∈ slots size front tail ↔ occupied size front i < occupied size front tail := by
  constructor
  · intro h
    obtain ⟨k, hk, rfl⟩ := List.mem_map.mp h
    have hlt : k < size :=
      (List.mem_range.mp hk).trans (occupied_lt (Nat.zero_lt_of_lt hfront) front tail)
    have heq : occupied size front ((front + k) % size) = k := by
      rw [occupied_eq hfront hi]
      rcases Nat.lt_or_ge (front + k) size with hsmall | hlarge
      · rw [Nat.mod_eq_of_lt hsmall, if_pos (Nat.le_add_right _ _)]
        omega
      · rw [Nat.mod_eq_sub_mod hlarge, Nat.mod_eq_of_lt (by omega), if_neg (by omega)]
        omega
    rw [heq]
    exact List.mem_range.mp hk
  · intro h
    exact List.mem_map.mpr ⟨_, List.mem_range.mpr h, add_occupied_mod hfront hi⟩

theorem tail_notMem_slots (hfront : front < size) (htail : tail < size) :
    tail ∉ slots size front tail := by
  rw [mem_slots_iff hfront htail]
  exact lt_irrefl _

theorem front_notMem_slots_succ (hfront : front < size) (htail : tail < size)
    (hne : front ≠ tail) : front ∉ slots size (succ size front) tail := by
  have hsucc := succ_lt (Nat.zero_lt_of_lt hfront) front
  rw [mem_slots_iff hsucc hfront]
  have hstep := occupied_succ_front hfront htail hne
  have hlt := occupied_lt (Nat.zero_lt_of_lt hfront) front tail
  rw [succ_eq hfront] at hsucc hstep ⊢
  rw [occupied_eq hsucc hfront]
  split_ifs at hsucc hstep ⊢ <;> omega

/-- For a size that is a power of two, the bits of the mask do what the remainder
does. -/
theorem and_eq_succ (k i : ℕ) : (i + 1) &&& (2 ^ k - 1) = succ (2 ^ k) i :=
  Nat.and_two_pow_sub_one_eq_mod (i + 1) k

end CircularBuffer
