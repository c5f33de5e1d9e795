import Mathlib

/-!
# Stacks of linked cells

Cells that are linked by a function `next`, from a head to a cell without a next one:
`Threaded next head l` says that these are the cells of `l`, in this order. The head
determines the list, which `walk` reads off; a cell is put on and taken off at the head,
and links of cells outside the list do not matter.
-/

namespace LinkedStack

variable {α : Type*}

/-- The cells of `l` are reached from `head` one after another. -/
def Threaded (next : α → Option α) : Option α → List α → Prop
  | head, [] => head = none
  | head, a :: l => head = some a ∧ Threaded next (next a) l

theorem threaded_nil (next : α → Option α) : Threaded next none [] := rfl

theorem eq_nil_of_threaded {next : α → Option α} {l : List α}
    (h : Threaded next none l) : l = [] := by
  cases l with
  | nil => rfl
  | cons a l => cases h.1

theorem threaded_push {next : α → Option α} {head : Option α} {l : List α} {a : α}
    (h : Threaded next head l) (ha : next a = head) : Threaded next (some a) (a :: l) := by
  refine ⟨rfl, ?_⟩
  rw [ha]
  exact h

theorem exists_cons_of_threaded {next : α → Option α} {l : List α} {a : α}
    (h : Threaded next (some a) l) : ∃ l', l = a :: l' ∧ Threaded next (next a) l' := by
  cases l with
  | nil => cases h
  | cons b l =>
      obtain ⟨heq, hrest⟩ := h
      cases heq
      exact ⟨l, rfl, hrest⟩

theorem threaded_congr {next next' : α → Option α} {head : Option α} {l : List α}
    (hnext : ∀ a ∈ l, next' a = next a) (h : Threaded next head l) :
    Threaded next' head l := by
  induction l generalizing head with
  | nil => exact h
  | cons a l ih =>
      refine ⟨h.1, ?_⟩
      rw [hnext a List.mem_cons_self]
      exact ih (fun b hb => hnext b (List.mem_cons_of_mem a hb)) h.2

theorem threaded_update [DecidableEq α] {next : α → Option α} {head : Option α}
    {l : List α} {a : α} (ha : a ∉ l) (b : Option α) (h : Threaded next head l) :
    Threaded (Function.update next a b) head l := by
  apply threaded_congr _ h
  intro c hc
  exact Function.update_of_ne (ne_of_mem_of_not_mem hc ha) _ _

/-- The cells from `head` on, at most `fuel` of them. -/
def walk (next : α → Option α) : ℕ → Option α → List α
  | 0, _ => []
  | _ + 1, none => []
  | fuel + 1, some a => a :: walk next fuel (next a)

theorem walk_eq {next : α → Option α} {head : Option α} {l : List α}
    (h : Threaded next head l) {fuel : ℕ} (hfuel : l.length ≤ fuel) :
    walk next fuel head = l := by
  induction l generalizing head fuel with
  | nil =>
      cases h
      cases fuel <;> rfl
  | cons a l ih =>
      cases fuel with
      | zero => exact absurd hfuel (Nat.not_succ_le_zero _)
      | succ fuel =>
          rw [h.1, walk, ih h.2 (Nat.le_of_succ_le_succ hfuel)]

end LinkedStack
