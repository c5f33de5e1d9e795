import Mathlib

/-!
# The first element of a key

A map that is filled without overwriting keeps, under every key, what the first
element of that key has brought. `firstOf key k l` is that element of the history
`l`, oldest first, and `forall_firstOf_iff` says when an observation of the first
one is right for every later one too: when elements of one key are all observed to
be the same.
-/

namespace FirstOf

variable {α κ β : Type*} [DecidableEq κ]

/-- The first element of a list with a key. -/
def firstOf (key : α → κ) (k : κ) (l : List α) : Option α :=
  l.find? fun a => key a = k

@[simp] theorem firstOf_nil (key : α → κ) (k : κ) :
    firstOf key k [] = none := rfl

theorem firstOf_append_singleton (key : α → κ) (k : κ) (l : List α) (a : α) :
    firstOf key k (l ++ [a]) =
      if key a = k ∧ firstOf key k l = none then some a else firstOf key k l := by
  unfold firstOf
  rw [List.find?_append]
  cases l.find? (fun a => key a = k) with
  | some b => simp
  | none => by_cases h : key a = k <;> simp [h]

theorem key_of_firstOf {key : α → κ} {k : κ} {l : List α} {a : α}
    (h : firstOf key k l = some a) : key a = k := by
  simpa using List.find?_some h

theorem mem_of_firstOf {key : α → κ} {k : κ} {l : List α} {a : α}
    (h : firstOf key k l = some a) : a ∈ l :=
  List.mem_of_find?_eq_some h

theorem exists_firstOf (key : α → κ) {l : List α} {a : α} (h : a ∈ l) :
    ∃ b, firstOf key (key a) l = some b := by
  rw [← Option.isSome_iff_exists, firstOf, List.find?_isSome]
  exact ⟨a, h, by simp⟩

/-- Elements of one key are observed to be the same. -/
def SameForKey (key : α → κ) (observe : α → β) (l : List α) : Prop :=
  ∀ a ∈ l, ∀ b ∈ l, key a = key b → observe a = observe b

/-- Every element is observed like the first one of its key exactly when elements
of one key are all observed to be the same. -/
theorem forall_firstOf_iff (key : α → κ) (observe : α → β) (l : List α) :
    (∀ a ∈ l, ∀ b, firstOf key (key a) l = some b → observe b = observe a) ↔
      SameForKey key observe l := by
  constructor
  · intro h a ha b hb hkey
    obtain ⟨first, hfirst⟩ := exists_firstOf key ha
    rw [← h a ha first hfirst, ← h b hb first (by rw [← hkey, hfirst])]
  · intro h a ha b hb
    exact h b (mem_of_firstOf hb) a ha (key_of_firstOf hb)

end FirstOf
