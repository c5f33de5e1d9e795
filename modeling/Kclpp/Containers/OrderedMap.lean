import Mathlib

/-!
# Lookups in ordered maps

A `std::map` is modelled by `Std.TreeMap`: unique keys, iterated in key order.
`lookup` is the partial function a map stands for, and the lemmas here say what
each operation does to that function, with the key comparison already read as
equality. `foldl_toList_lookup` reads a fold over the entries that writes only
the entry's own key.
-/

open Std

namespace OrderedMap

def lookup {α β : Type*} [Ord α] (m : TreeMap α β) (k : α) : Option β := m[k]?

@[simp] theorem lookup_empty {α β : Type*} [Ord α] [TransOrd α] (k : α) :
    lookup (∅ : TreeMap α β) k = none := by
  simp [lookup]

@[simp] theorem lookup_insert {α β : Type*} [Ord α] [TransOrd α]
    [LawfulEqOrd α] [DecidableEq α] (m : TreeMap α β) (k a : α) (v : β) :
    lookup (m.insert k v) a = if k = a then some v else lookup m a := by
  simp [lookup, TreeMap.getElem?_insert]

@[simp] theorem lookup_erase {α β : Type*} [Ord α] [TransOrd α]
    [LawfulEqOrd α] [DecidableEq α] (m : TreeMap α β) (k a : α) :
    lookup (m.erase k) a = if k = a then none else lookup m a := by
  simp [lookup, TreeMap.getElem?_erase]

@[simp] theorem lookup_insertIfNew {α β : Type*} [Ord α] [TransOrd α]
    [LawfulEqOrd α] [DecidableEq α] (m : TreeMap α β) (k a : α) (v : β) :
    lookup (m.insertIfNew k v) a =
      if k = a ∧ lookup m k = none then some v else lookup m a := by
  simp [lookup, TreeMap.getElem?_insertIfNew]

theorem lookup_elim_insertIfNew {α β γ : Type*} [Ord α] [TransOrd α]
    [LawfulEqOrd α] [DecidableEq α] (m : TreeMap α β) (k a : α) (field : Option γ)
    (f : γ → β) :
    lookup (field.elim m fun v => m.insertIfNew k (f v)) a =
      if k = a ∧ lookup m k = none then field.map f else lookup m a := by
  cases field with
  | none =>
      dsimp only [Option.elim_none, Option.map_none]
      split_ifs with h
      · rw [← h.1, h.2]
      · rfl
  | some v => exact lookup_insertIfNew m k a (f v)

theorem mem_toList_iff_lookup {α β : Type*} [Ord α] [TransOrd α]
    [LawfulEqOrd α] (m : TreeMap α β) (k : α) (v : β) :
    (k, v) ∈ m.toList ↔ lookup m k = some v :=
  TreeMap.mem_toList_iff_getElem?_eq_some

theorem toList_pairwise_ne {α β : Type*} [Ord α] [TransOrd α]
    [LawfulEqOrd α] (m : TreeMap α β) :
    m.toList.Pairwise fun a b => a.1 ≠ b.1 := by
  refine TreeMap.distinct_keys_toList.imp ?_
  intro a b h heq
  exact h (compare_eq_iff_eq.mpr heq)

theorem size_eq_card {α β : Type*} [Ord α] [TransOrd α] [LawfulEqOrd α]
    [DecidableEq α] (m : TreeMap α β) {keys : Finset α}
    (h : ∀ k, k ∈ keys ↔ lookup m k ≠ none) : m.size = keys.card := by
  have hkeys : keys = m.keys.toFinset := by
    ext k
    rw [h, List.mem_toFinset, TreeMap.mem_keys, lookup,
      TreeMap.mem_iff_isSome_getElem?, Option.isSome_iff_ne_none]
  rw [hkeys, List.toFinset_card_of_nodup TreeMap.nodup_keys,
    TreeMap.length_keys]

/-- A fold over entries that writes only the entry's own key keeps the value of
a key that does not occur. -/
theorem foldl_lookup_of_forall_ne {α β γ δ : Type*} (get : δ → α → Option γ)
    (f : δ → α × β → δ)
    (hframe : ∀ d e a, e.1 ≠ a → get (f d e) a = get d a)
    (es : List (α × β)) (d : δ) (a : α) (h : ∀ e ∈ es, e.1 ≠ a) :
    get (es.foldl f d) a = get d a := by
  induction es generalizing d with
  | nil => rfl
  | cons e es ih =>
      rw [List.foldl_cons,
        ih (f d e) fun e' he' => h e' (List.mem_cons_of_mem e he')]
      exact hframe d e a (h e List.mem_cons_self)

/-- A fold over the entries of a map that writes only the entry's own key, to a
value `g` that the entry decides: the result is `g` at the map's keys and
unchanged elsewhere. -/
theorem foldl_toList_lookup {α β γ δ : Type*} [Ord α] [TransOrd α]
    [LawfulEqOrd α] (get : δ → α → Option γ)
    (f : δ → α × β → δ) (g : β → Option γ)
    (hself : ∀ d e, get (f d e) e.1 = g e.2)
    (hframe : ∀ d e a, e.1 ≠ a → get (f d e) a = get d a)
    (m : TreeMap α β) (d : δ) (a : α) :
    get (m.toList.foldl f d) a = (lookup m a).elim (get d a) g := by
  cases hm : lookup m a with
  | none =>
      refine foldl_lookup_of_forall_ne get f hframe m.toList d a ?_
      rintro ⟨k, v⟩ he rfl
      rw [(mem_toList_iff_lookup m k v).mp he] at hm
      cases hm
  | some v =>
      obtain ⟨es, es', hes⟩ :=
        List.append_of_mem ((mem_toList_iff_lookup m a v).mpr hm)
      have hne : ∀ e ∈ es', e.1 ≠ a := by
        have hpw := toList_pairwise_ne m
        rw [hes, List.pairwise_append] at hpw
        exact fun e he => ((List.pairwise_cons.mp hpw.2.1).1 e he).symm
      rw [hes, List.foldl_append, List.foldl_cons,
        foldl_lookup_of_forall_ne get f hframe es' _ a hne]
      exact hself _ (a, v)

end OrderedMap
