import Mathlib

/-!
# What the parties of a system weigh together

A system of parties is a function from the parties to the points at which they stand.
A step of one party changes the function at that party. `tally w points` adds up a
weight over all parties; what a step does to it is what it does to the weight of the
one that takes it, which is `tally_of_others`.
-/

open Finset

namespace Parties

variable {T σ : Type*} [Fintype T]

def tally (w : σ → ℕ) (points : T → σ) : ℕ := ∑ t, w (points t)

theorem le_tally (w : σ → ℕ) (points : T → σ) (t : T) : w (points t) ≤ tally w points :=
  single_le_sum (fun t _ => Nat.zero_le (w (points t))) (mem_univ t)

theorem add_le_tally [DecidableEq T] (w : σ → ℕ) (points : T → σ) {t u : T} (h : u ≠ t) :
    w (points u) + w (points t) ≤ tally w points := by
  calc w (points u) + w (points t) = ∑ v ∈ {u, t}, w (points v) :=
        (sum_pair (f := fun v => w (points v)) h).symm
    _ ≤ tally w points := sum_le_sum_of_subset (subset_univ _)

theorem tally_eq_zero_iff (w : σ → ℕ) (points : T → σ) :
    tally w points = 0 ↔ ∀ t, w (points t) = 0 := by
  rw [tally, sum_eq_zero_iff]
  exact forall_congr' fun t => imp_iff_right (mem_univ t)

theorem tally_pos_iff (w : σ → ℕ) (points : T → σ) :
    0 < tally w points ↔ ∃ t, 0 < w (points t) := by
  rw [Nat.pos_iff_ne_zero, Ne, tally_eq_zero_iff, not_forall]
  exact exists_congr fun t => Nat.pos_iff_ne_zero.symm

theorem tally_const (w : σ → ℕ) (p : σ) : tally w (fun _ : T => p) = Fintype.card T * w p := by
  rw [tally, sum_const, smul_eq_mul, card_univ]

theorem tally_le_card {w : σ → ℕ} {points : T → σ} (h : ∀ t, w (points t) ≤ 1) :
    tally w points ≤ Fintype.card T := by
  have hle := sum_le_card_nsmul univ (fun t => w (points t)) 1 fun t _ => h t
  rwa [smul_eq_mul, mul_one, card_univ] at hle

/-- Different things that some party stands at each are no more than the parties that
stand at any. -/
theorem card_le_tally {N : Type*} (f : σ → Option N) {points : T → σ} {F : Finset N}
    (h : ∀ n ∈ F, ∃ t, f (points t) = some n) :
    F.card ≤ tally (fun p => (f p).isSome.toNat) points := by
  have hcard : tally (fun p => (f p).isSome.toNat) points =
      (univ.filter fun t => (f (points t)).isSome = true).card := by
    rw [card_filter]
    refine sum_congr rfl fun t _ => ?_
    change (f (points t)).isSome.toNat = _
    cases f (points t) <;> rfl
  classical
  rw [hcard, ← card_map Function.Embedding.some]
  refine (card_le_card fun x hx => ?_).trans
    (card_image_le (f := fun t => f (points t)))
  obtain ⟨n, hn, rfl⟩ := mem_map.mp hx
  obtain ⟨t, ht⟩ := h n hn
  refine mem_image.mpr ⟨t, mem_filter.mpr ⟨mem_univ t, ?_⟩, ht⟩
  rw [ht]
  rfl

theorem tally_update [DecidableEq T] (w : σ → ℕ) (points : T → σ) (t : T) (p : σ) :
    tally w (Function.update points t p) + w (points t) = tally w points + w p := by
  have hrest : ∑ u ∈ univ.erase t, w (Function.update points t p u) =
      ∑ u ∈ univ.erase t, w (points u) :=
    sum_congr rfl fun u hu => by rw [Function.update_of_ne (ne_of_mem_erase hu)]
  rw [tally, tally, ← add_sum_erase univ _ (mem_univ t), hrest, Function.update_self,
    ← add_sum_erase univ (fun u => w (points u)) (mem_univ t)]
  ring

theorem tally_of_others (w : σ → ℕ) {points points' : T → σ} {t : T}
    (h : ∀ u, u ≠ t → points' u = points u) :
    tally w points' + w (points t) = tally w points + w (points' t) := by
  classical
  have hupdate : points' = Function.update points t (points' t) := by
    funext u
    by_cases hu : u = t
    · rw [hu, Function.update_self]
    · rw [Function.update_of_ne hu, h u hu]
  rw [hupdate, Function.update_self]
  exact tally_update w points t (points' t)

end Parties
