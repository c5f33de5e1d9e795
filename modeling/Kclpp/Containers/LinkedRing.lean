import Mathlib

/-!
# Rings of linked cells

Cells that are linked in a circle by a function `next`: `Linked next l` says that
the cells of `l` are such a circle, in this order and closed at the end. A ring can
be read from any of its cells (`linked_append_comm`), and a cell is put in behind
another by two assignments (`linked_insert`). `path` and `circuit` are the two ways
to walk on a ring: up to a given cell, and once around.
-/

namespace LinkedRing

variable {α : Type*}

/-- The cells of `l` are linked in a circle. -/
def Linked (next : α → α) (l : List α) : Prop :=
  Cycle.Chain (fun a b => next a = b) (l : Cycle α)

theorem linked_cons (next : α → α) (a : α) (l : List α) :
    Linked next (a :: l) ↔ List.IsChain (fun a b => next a = b) (a :: (l ++ [a])) :=
  Iff.rfl

/-- A ring can be read from any of its cells. -/
theorem linked_append_comm (next : α → α) (l l' : List α) :
    Linked next (l ++ l') ↔ Linked next (l' ++ l) := by
  unfold Linked
  rw [Cycle.coe_eq_coe.mpr (@List.isRotated_append _ l l')]

theorem next_eq {next : α → α} {l l' : List α} {a b : α}
    (h : Linked next (l ++ a :: b :: l')) : next a = b := by
  rw [linked_append_comm, List.cons_append, List.cons_append, linked_cons] at h
  exact (List.isChain_cons_cons.mp h).1

theorem next_last_eq {next : α → α} {l : List α} {a b : α}
    (h : Linked next (b :: (l ++ [a]))) : next a = b := by
  have hrot := (linked_append_comm next (b :: l) [a]).mp (by simpa using h)
  exact next_eq (l := []) hrot

theorem next_singleton {next : α → α} {a : α} (h : Linked next [a]) : next a = a :=
  (Cycle.chain_singleton _ a).mp h

theorem isChain_congr {next next' : α → α} {l : List α} {a : α}
    (hnext : ∀ b ∈ l, next' b = next b)
    (h : List.IsChain (fun a b => next a = b) (l ++ [a])) :
    List.IsChain (fun a b => next' a = b) (l ++ [a]) := by
  induction l with
  | nil => exact List.IsChain.singleton a
  | cons b l ih =>
      have hrest := ih (fun c hc => hnext c (List.mem_cons_of_mem b hc))
      cases l with
      | nil =>
          rw [List.cons_append, List.nil_append, List.isChain_pair] at h ⊢
          rw [hnext b List.mem_cons_self]
          exact h
      | cons c l =>
          rw [List.cons_append, List.cons_append, List.isChain_cons_cons] at h ⊢
          rw [hnext b List.mem_cons_self]
          exact ⟨h.1, hrest h.2⟩

theorem linked_congr {next next' : α → α} {l : List α}
    (hnext : ∀ a ∈ l, next' a = next a) (h : Linked next l) : Linked next' l := by
  cases l with
  | nil => exact h
  | cons a l => exact isChain_congr (l := a :: l) hnext h

theorem linked_insert {next next' : α → α} {l l' : List α} {a n : α}
    (h : Linked next (l ++ a :: l')) (hnodup : (l ++ a :: l').Nodup)
    (hn : n ∉ l ++ a :: l') (ha : next' a = n) (hnew : next' n = next a)
    (hnext : ∀ b, b ≠ a → b ≠ n → next' b = next b) :
    Linked next' (l ++ a :: n :: l') := by
  rw [linked_append_comm] at h ⊢
  have hperm : List.Perm (l ++ a :: l') (a :: (l' ++ l)) :=
    List.perm_append_comm
  rw [hperm.nodup_iff, List.nodup_cons] at hnodup
  rw [hperm.mem_iff, List.mem_cons, not_or] at hn
  rw [List.cons_append, linked_cons] at h
  rw [List.cons_append, List.cons_append, linked_cons, List.cons_append,
    List.isChain_cons_cons]
  refine ⟨ha, ?_⟩
  have hothers : ∀ b ∈ l' ++ l, next' b = next b := fun b hb =>
    hnext b (fun heq => hnodup.1 (heq ▸ hb)) (fun heq => hn.2 (heq ▸ hb))
  cases hrest : l' ++ l with
  | nil =>
      rw [hrest, List.nil_append, List.isChain_pair] at h
      rw [List.nil_append, List.isChain_pair, hnew]
      exact h
  | cons c m =>
      rw [hrest, List.cons_append, List.isChain_cons_cons] at h
      rw [hrest] at hothers
      rw [List.cons_append, List.isChain_cons_cons, hnew]
      exact ⟨h.1, isChain_congr (l := c :: m) hothers h.2⟩

section Walks

variable [DecidableEq α]

/-- The cells from `a` up to the cell `last`, at most `fuel + 1` of them. -/
def path (next : α → α) (last : α) : ℕ → α → List α
  | 0, a => [a]
  | fuel + 1, a => a :: if a = last then [] else path next last fuel (next a)

/-- The cells from `a` on until the next one is `first`, at most `fuel` of them. -/
def circuit (next : α → α) (first : α) : ℕ → α → List α
  | 0, _ => []
  | fuel + 1, a => a :: if next a = first then [] else circuit next first fuel (next a)

theorem path_eq {next : α → α} {l : List α} {a last : α} {fuel : ℕ}
    (h : List.IsChain (fun a b => next a = b) (a :: l)) (hnodup : (a :: l).Nodup)
    (hlast : (a :: l).getLast? = some last) (hfuel : l.length ≤ fuel) :
    path next last fuel a = a :: l := by
  induction l generalizing a fuel with
  | nil =>
      have heq : a = last := by simpa using hlast
      cases fuel with
      | zero => rfl
      | succ fuel => rw [path, if_pos heq]
  | cons b l ih =>
      obtain ⟨hnext, hrest⟩ := List.isChain_cons_cons.mp h
      obtain ⟨hnotMem, hnodup⟩ := List.nodup_cons.mp hnodup
      have hlast' : (b :: l).getLast? = some last := by simpa using hlast
      have hne : a ≠ last := fun heq =>
        hnotMem (heq ▸ List.mem_of_getLast? hlast')
      cases fuel with
      | zero => exact absurd hfuel (Nat.not_succ_le_zero _)
      | succ fuel =>
          rw [path, if_neg hne, hnext, ih hrest hnodup hlast' (Nat.le_of_succ_le_succ hfuel)]

theorem circuit_eq {next : α → α} {l : List α} {a first : α} {fuel : ℕ}
    (h : List.IsChain (fun a b => next a = b) (a :: (l ++ [first])))
    (hfirst : first ∉ l) (hfuel : l.length < fuel) :
    circuit next first fuel a = a :: l := by
  induction l generalizing a fuel with
  | nil =>
      cases fuel with
      | zero => exact absurd hfuel (Nat.not_lt_zero _)
      | succ fuel =>
          have hnext := List.isChain_pair.mp h
          rw [circuit, if_pos hnext]
  | cons b l ih =>
      rw [List.cons_append, List.isChain_cons_cons] at h
      rw [List.mem_cons, not_or] at hfirst
      cases fuel with
      | zero => exact absurd hfuel (Nat.not_lt_zero _)
      | succ fuel =>
          rw [circuit, h.1, if_neg (Ne.symm hfirst.1),
            ih h.2 hfirst.2 (Nat.lt_of_succ_lt_succ hfuel)]

end Walks

end LinkedRing
