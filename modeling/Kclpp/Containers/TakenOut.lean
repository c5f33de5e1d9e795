import Mathlib

/-!
# Lists from which one element is taken

A list of things that are still to happen, of which any may be next: the one that
does is taken out by its index. `mem_eraseIdx_of_ne` says what stays in the list,
and `countP_of_getElem?` what the list counts more than what stays. Where another
element takes its place, `countP_set_of_getElem?` and `sum_map_set_of_getElem?`
compare the two lists.
-/

namespace TakenOut

theorem mem_eraseIdx_of_ne {α : Type*} {l : List α} {i : ℕ} {a b : α}
    (hi : l[i]? = some a) (hb : b ∈ l) (hne : b ≠ a) : b ∈ l.eraseIdx i := by
  obtain ⟨j, hj⟩ := List.mem_iff_getElem?.mp hb
  refine List.mem_eraseIdx_iff_getElem?.mpr ⟨j, ?_, hj⟩
  rintro rfl
  rw [hi] at hj
  exact hne (Option.some.inj hj).symm

theorem countP_of_getElem? {α : Type*} {l : List α} {i : ℕ} {a : α}
    (hi : l[i]? = some a) (p : α → Bool) :
    l.countP p = (l.eraseIdx i).countP p + if p a then 1 else 0 := by
  obtain ⟨hlt, rfl⟩ := List.getElem?_eq_some_iff.mp hi
  have hperm := List.getElem_cons_eraseIdx_perm hlt
  rw [← hperm.countP_eq, List.countP_cons]

theorem countP_set_of_getElem? {α : Type*} {l : List α} {i : ℕ} {a : α}
    (hi : l[i]? = some a) (b : α) (p : α → Bool) :
    (l.set i b).countP p + (if p a then 1 else 0) =
      l.countP p + if p b then 1 else 0 := by
  obtain ⟨hlt, rfl⟩ := List.getElem?_eq_some_iff.mp hi
  have hset : (l.set i b)[i]? = some b := List.getElem?_set_self hlt
  rw [countP_of_getElem? hi p, countP_of_getElem? hset p, List.eraseIdx_set_eq]
  omega

theorem sum_map_set_of_getElem? {α : Type*} {l : List α} {i : ℕ} {a : α}
    (hi : l[i]? = some a) (b : α) (f : α → ℕ) :
    ((l.set i b).map f).sum + f a = (l.map f).sum + f b := by
  obtain ⟨hlt, rfl⟩ := List.getElem?_eq_some_iff.mp hi
  have hbefore := ((List.getElem_cons_eraseIdx_perm hlt).map f).sum_eq
  have hafter := ((List.set_perm_cons_eraseIdx hlt b).map f).sum_eq
  rw [List.map_cons, List.sum_cons] at hbefore hafter
  omega

end TakenOut
