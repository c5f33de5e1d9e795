import Mathlib

/-!
# Loads of workers

A load is a number for every worker. Two facts about loads are used where work
is balanced: a transfer that leaves the giver with at least as much as the taker
lowers the sum of the squares, and the share `n ⌈/⌉ workers.card` of a total is
a lower bound for the highest load and, where every load reaches it, an upper
bound for the total. Loads that count the elements of a list by their worker add
up to the number of elements that have one.
-/

namespace Balancing

def sumOfSquares {ω : Type*} (workers : Finset ω) (load : ω → ℕ) : ℕ :=
  ∑ w ∈ workers, load w ^ 2

/-- Between two loads, `k` units go from the giver to the taker. -/
structure Transfer {ω : Type*} (giver taker : ω) (k : ℕ) (load load' : ω → ℕ) :
    Prop where
  ne : taker ≠ giver
  gives : load' giver + k = load giver
  takes : load' taker = load taker + k
  others : ∀ w, w ≠ giver → w ≠ taker → load' w = load w

theorem sumOfSquares_eq_add_add {ω : Type*} [DecidableEq ω]
    {workers : Finset ω} {u v : ω} (hne : u ≠ v) (hu : u ∈ workers)
    (hv : v ∈ workers) (load : ω → ℕ) :
    sumOfSquares workers load =
      load u ^ 2 + (load v ^ 2 +
        sumOfSquares ((workers.erase u).erase v) load) := by
  have hv' : v ∈ workers.erase u := Finset.mem_erase.mpr ⟨hne.symm, hv⟩
  unfold sumOfSquares
  rw [Finset.add_sum_erase _ (fun w => load w ^ 2) hv',
    Finset.add_sum_erase _ (fun w => load w ^ 2) hu]

/-- A transfer that leaves the giver with at least as much as the taker lowers
the sum of the squares. -/
theorem Transfer.sumOfSquares_lt {ω : Type*} [DecidableEq ω]
    {giver taker : ω} {k : ℕ} {load load' : ω → ℕ}
    (h : Transfer giver taker k load load') (hk : 0 < k)
    (hle : load' taker ≤ load' giver) {workers : Finset ω}
    (hgiver : giver ∈ workers) (htaker : taker ∈ workers) :
    sumOfSquares workers load' < sumOfSquares workers load := by
  have hrest : sumOfSquares ((workers.erase taker).erase giver) load' =
      sumOfSquares ((workers.erase taker).erase giver) load := by
    refine Finset.sum_congr rfl fun w hw => ?_
    rw [Finset.mem_erase, Finset.mem_erase] at hw
    rw [h.others w hw.1 hw.2.1]
  rw [sumOfSquares_eq_add_add h.ne htaker hgiver,
    sumOfSquares_eq_add_add h.ne htaker hgiver, hrest, h.takes, ← h.gives]
  have hlt : load taker < load' giver := by
    have htakes := h.takes
    omega
  nlinarith

/-- Workers without a load do not count. -/
theorem sumOfSquares_eq_of_subset {ω : Type*} {workers workers' : Finset ω}
    (hsub : workers ⊆ workers') {load : ω → ℕ}
    (hzero : ∀ w, w ∉ workers → load w = 0) :
    sumOfSquares workers load = sumOfSquares workers' load := by
  refine Finset.sum_subset hsub fun w _ hw => ?_
  simp [hzero w hw]

theorem ceilDiv_card_le {ω : Type*} {workers : Finset ω} {load : ω → ℕ}
    {n b : ℕ} (hn : n ≤ ∑ w ∈ workers, load w)
    (hb : ∀ w ∈ workers, load w ≤ b) : n ⌈/⌉ workers.card ≤ b := by
  rcases workers.eq_empty_or_nonempty with rfl | hne
  · simp
  · rw [ceilDiv_le_iff_le_smul hne.card_pos]
    exact hn.trans (Finset.sum_le_card_nsmul workers load b hb)

/-- Where every load reaches the share, the loads cover the total. -/
theorem le_sum_of_ceilDiv_card_le {ω : Type*} {workers : Finset ω}
    (hne : workers.Nonempty) {load : ω → ℕ} {n : ℕ}
    (h : ∀ w ∈ workers, n ⌈/⌉ workers.card ≤ load w) :
    n ≤ ∑ w ∈ workers, load w := by
  calc n ≤ workers.card • (n ⌈/⌉ workers.card) := le_smul_ceilDiv hne.card_pos
    _ ≤ ∑ w ∈ workers, load w := Finset.card_nsmul_le_sum workers load _ h

theorem lt_sum_of_ceilDiv_card_le {ω : Type*} {workers : Finset ω}
    {load : ω → ℕ} {n : ℕ} (h : ∀ w ∈ workers, n ⌈/⌉ workers.card ≤ load w)
    {u : ω} (hu : u ∈ workers) (hlt : n ⌈/⌉ workers.card < load u) :
    n < ∑ w ∈ workers, load w := by
  calc n ≤ workers.card • (n ⌈/⌉ workers.card) :=
        le_smul_ceilDiv (Finset.card_pos.mpr ⟨u, hu⟩)
    _ = ∑ w ∈ workers, n ⌈/⌉ workers.card := (Finset.sum_const _).symm
    _ < ∑ w ∈ workers, load w := Finset.sum_lt_sum h ⟨u, hu, hlt⟩

/-- The number of elements of a list that belong to a worker. -/
def countOf {α ω : Type*} [DecidableEq ω] (worker : α → Option ω) (l : List α)
    (w : ω) : ℕ :=
  l.countP fun a => worker a = some w

@[simp] theorem countOf_nil {α ω : Type*} [DecidableEq ω]
    (worker : α → Option ω) (w : ω) : countOf worker [] w = 0 := rfl

theorem countOf_cons {α ω : Type*} [DecidableEq ω] (worker : α → Option ω)
    (a : α) (l : List α) (w : ω) :
    countOf worker (a :: l) w =
      countOf worker l w + if worker a = some w then 1 else 0 := by
  simp [countOf, List.countP_cons]

theorem countOf_pos_iff {α ω : Type*} [DecidableEq ω] (worker : α → Option ω)
    (l : List α) (w : ω) :
    0 < countOf worker l w ↔ ∃ a ∈ l, worker a = some w := by
  simp [countOf, List.countP_pos_iff]

/-- The counts of all workers add up to the number of elements that belong to
one of them. -/
theorem sum_countOf {α ω : Type*} [DecidableEq ω] (worker : α → Option ω)
    (l : List α) (workers : Finset ω) :
    ∑ w ∈ workers, countOf worker l w =
      l.countP fun a => ∃ w ∈ workers, worker a = some w := by
  induction l with
  | nil => simp
  | cons a l ih =>
      simp only [countOf_cons, Finset.sum_add_distrib, ih, List.countP_cons,
        decide_eq_true_eq]
      congr 1
      cases ha : worker a with
      | none => simp
      | some u =>
          by_cases hu : u ∈ workers <;> simp [hu]

end Balancing
