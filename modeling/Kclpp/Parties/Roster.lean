import Mathlib

/-!
# Who stands where

Things that stand at places, and lists of those that stand at some of them: `Roster place
c l` says that `l` has, once each, the things whose place satisfies `c`. A move of one
thing keeps a roster, puts the thing on it, or takes it off.
-/

namespace Parties

variable {N σ : Type*}

/-- The things whose place satisfies `c`, once each. -/
structure Roster (place : N → σ) (c : σ → Prop) (l : List N) : Prop where
  nodup : l.Nodup
  mem_iff : ∀ n, n ∈ l ↔ c (place n)

namespace Roster

theorem nil {place : N → σ} {c : σ → Prop} (h : ∀ n, ¬ c (place n)) : Roster place c [] :=
  ⟨List.nodup_nil, fun n => ⟨nofun, fun hn => absurd hn (h n)⟩⟩

theorem filter {place : N → σ} {c d : σ → Prop} [DecidablePred d] {l : List N}
    (h : Roster place c l) (hd : ∀ x, d x → c x) :
    Roster place d (l.filter fun n => d (place n)) := by
  refine ⟨h.nodup.filter _, fun n => ?_⟩
  rw [List.mem_filter, h.mem_iff, decide_eq_true_iff]
  exact and_iff_right_of_imp (hd (place n))

variable [DecidableEq N] {place : N → σ} {c : σ → Prop} {l : List N} {n : N} {x : σ}

theorem update (h : Roster place c l) (hx : c x ↔ c (place n)) :
    Roster (Function.update place n x) c l := by
  refine ⟨h.nodup, fun m => ?_⟩
  by_cases hm : m = n
  · rw [hm, Function.update_self, hx, h.mem_iff]
  · rw [Function.update_of_ne hm, h.mem_iff]

theorem count_eq [DecidablePred c] (h : Roster place c l) (n : N) :
    l.count n = if c (place n) then 1 else 0 := by
  rw [h.nodup.count]
  exact if_congr (h.mem_iff n) rfl rfl

theorem cons (h : Roster place c l) (hbefore : ¬ c (place n)) (hx : c x) :
    Roster (Function.update place n x) c (n :: l) := by
  refine ⟨List.nodup_cons.mpr ⟨fun hmem => hbefore ((h.mem_iff n).mp hmem), h.nodup⟩,
    fun m => ?_⟩
  by_cases hm : m = n
  · rw [hm, Function.update_self]
    exact iff_of_true List.mem_cons_self hx
  · rw [Function.update_of_ne hm, List.mem_cons, or_iff_right hm, h.mem_iff]

theorem erase (h : Roster place c l) (hx : ¬ c x) :
    Roster (Function.update place n x) c (l.erase n) := by
  refine ⟨h.nodup.erase n, fun m => ?_⟩
  by_cases hm : m = n
  · rw [hm, Function.update_self]
    exact iff_of_false h.nodup.not_mem_erase hx
  · rw [Function.update_of_ne hm, List.mem_erase_of_ne hm, h.mem_iff]

theorem tail (h : Roster place c (n :: l)) (hx : ¬ c x) :
    Roster (Function.update place n x) c l := by
  have herase := h.erase (n := n) hx
  rw [List.erase_cons_head] at herase
  exact herase

end Roster

end Parties
