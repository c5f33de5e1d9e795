import Mathlib

/-!
# Ring buffers

`DynamicWheelBuffer` is a vector with the index of its current element. Elements are
addressed from there, and around the end of the vector. `advance` moves on by one, so
that the current element becomes the last one.
-/

namespace Kclpp

namespace Async

namespace Wheel

/-- `DynamicWheelBuffer`. -/
structure DynamicWheelBuffer (α : Type*) where
  buff : List α
  currentIndex : ℕ := 0

namespace DynamicWheelBuffer

variable {α : Type*}

def create [Inhabited α] (nItems : ℕ) : DynamicWheelBuffer α where
  buff := List.replicate nItems default

def getRealIndex (buffer : DynamicWheelBuffer α) (idx : ℕ) : ℕ :=
  (buffer.currentIndex + idx) % buffer.buff.length

def getAt (buffer : DynamicWheelBuffer α) (idx : ℕ) : Option α :=
  buffer.buff[buffer.getRealIndex idx]?

/-- What the code does to the element that `DynamicWheelBuffer::getAt` refers to. -/
def modifyAt (buffer : DynamicWheelBuffer α) (idx : ℕ) (f : α → α) :
    DynamicWheelBuffer α :=
  { buffer with buff := buffer.buff.modify (buffer.getRealIndex idx) f }

def advance (buffer : DynamicWheelBuffer α) : DynamicWheelBuffer α :=
  { buffer with currentIndex := (buffer.currentIndex + 1) % buffer.buff.length }

@[simp] theorem length_buff_modifyAt (buffer : DynamicWheelBuffer α) (idx : ℕ)
    (f : α → α) : (buffer.modifyAt idx f).buff.length = buffer.buff.length :=
  List.length_modify _ _ _

@[simp] theorem buff_advance (buffer : DynamicWheelBuffer α) :
    buffer.advance.buff = buffer.buff := rfl

@[simp] theorem getRealIndex_modifyAt (buffer : DynamicWheelBuffer α) (idx k : ℕ)
    (f : α → α) : (buffer.modifyAt idx f).getRealIndex k = buffer.getRealIndex k := by
  unfold getRealIndex
  rw [length_buff_modifyAt]
  rfl

theorem getRealIndex_lt (buffer : DynamicWheelBuffer α) (hlength : 0 < buffer.buff.length)
    (idx : ℕ) : buffer.getRealIndex idx < buffer.buff.length :=
  Nat.mod_lt _ hlength

theorem exists_getAt (buffer : DynamicWheelBuffer α) (hlength : 0 < buffer.buff.length)
    (idx : ℕ) : ∃ a, buffer.getAt idx = some a :=
  ⟨_, List.getElem?_eq_getElem (buffer.getRealIndex_lt hlength idx)⟩

theorem eq_of_getRealIndex_eq (buffer : DynamicWheelBuffer α) {j k : ℕ}
    (hj : j < buffer.buff.length) (hk : k < buffer.buff.length)
    (h : buffer.getRealIndex j = buffer.getRealIndex k) : j = k := by
  have hmod : j ≡ k [MOD buffer.buff.length] :=
    Nat.ModEq.add_left_cancel' buffer.currentIndex h
  rw [Nat.ModEq, Nat.mod_eq_of_lt hj, Nat.mod_eq_of_lt hk] at hmod
  exact hmod

theorem getAt_modifyAt_self (buffer : DynamicWheelBuffer α) (idx : ℕ) (f : α → α) :
    (buffer.modifyAt idx f).getAt idx = (buffer.getAt idx).map f := by
  unfold getAt
  rw [getRealIndex_modifyAt]
  exact List.getElem?_modify_eq _ _ _

theorem getAt_modifyAt_of_ne (buffer : DynamicWheelBuffer α) {idx k : ℕ}
    (hidx : idx < buffer.buff.length) (hk : k < buffer.buff.length) (hne : idx ≠ k)
    (f : α → α) : (buffer.modifyAt idx f).getAt k = buffer.getAt k := by
  unfold getAt
  rw [getRealIndex_modifyAt]
  exact List.getElem?_modify_ne _ _
    fun h => hne (buffer.eq_of_getRealIndex_eq hidx hk h)

theorem getAt_advance (buffer : DynamicWheelBuffer α) (k : ℕ) :
    buffer.advance.getAt k = buffer.getAt (k + 1) := by
  unfold getAt getRealIndex advance
  dsimp only
  rw [Nat.mod_add_mod, Nat.add_right_comm, Nat.add_assoc]

theorem getAt_length (buffer : DynamicWheelBuffer α) :
    buffer.getAt buffer.buff.length = buffer.getAt 0 := by
  unfold getAt getRealIndex
  rw [Nat.add_mod_right, Nat.add_zero]

theorem exists_getAt_of_mem (buffer : DynamicWheelBuffer α) {a : α}
    (ha : a ∈ buffer.buff) : ∃ k < buffer.buff.length, buffer.getAt k = some a := by
  obtain ⟨j, hj, rfl⟩ := List.mem_iff_getElem.mp ha
  have hpos : 0 < buffer.buff.length := j.zero_le.trans_lt hj
  have hmod := Nat.mod_lt buffer.currentIndex hpos
  have hdiv := Nat.mod_add_div buffer.currentIndex buffer.buff.length
  refine ⟨(j + (buffer.buff.length - buffer.currentIndex % buffer.buff.length)) %
    buffer.buff.length, Nat.mod_lt _ hpos, ?_⟩
  have hindex : buffer.getRealIndex ((j + (buffer.buff.length -
      buffer.currentIndex % buffer.buff.length)) % buffer.buff.length) = j := by
    rw [getRealIndex, Nat.add_mod_mod, show buffer.currentIndex + (j +
        (buffer.buff.length - buffer.currentIndex % buffer.buff.length)) =
      j + buffer.buff.length +
        buffer.buff.length * (buffer.currentIndex / buffer.buff.length) by omega,
      Nat.add_mul_mod_self_left, Nat.add_mod_right, Nat.mod_eq_of_lt hj]
  rw [getAt, hindex]
  exact List.getElem?_eq_getElem hj

section Slots

variable {β : Type*}

/-- What the slots hold, the one at an index apart from the others. -/
theorem perm_flatten (buffer : DynamicWheelBuffer (List β)) {idx : ℕ} {slot : List β}
    (hslot : buffer.getAt idx = some slot) :
    buffer.buff.flatten.Perm
      (slot ++ (buffer.buff.eraseIdx (buffer.getRealIndex idx)).flatten) := by
  obtain ⟨hlt, rfl⟩ := List.getElem?_eq_some_iff.mp hslot
  exact (List.getElem_cons_eraseIdx_perm hlt).symm.flatten

theorem perm_flatten_modifyAt (buffer : DynamicWheelBuffer (List β)) {idx : ℕ}
    {slot : List β} (hslot : buffer.getAt idx = some slot) (f : List β → List β) :
    (buffer.modifyAt idx f).buff.flatten.Perm
      (f slot ++ (buffer.buff.eraseIdx (buffer.getRealIndex idx)).flatten) := by
  obtain ⟨hlt, rfl⟩ := List.getElem?_eq_some_iff.mp hslot
  unfold modifyAt
  dsimp only
  rw [List.modify_eq_set, List.getElem?_eq_getElem hlt, Option.getD_some]
  exact (List.set_perm_cons_eraseIdx hlt _).flatten

end Slots

end DynamicWheelBuffer

end Wheel

end Async

end Kclpp
