import Mathlib

/-!
# Values with their versions

A store keeps a value, and every write commits a new version of it. The versions are
numbered from zero. A consistent read is answered from the latest version, any other
from whichever version the store chooses.
-/

namespace Histories

/-- The latest version and the ones before it, newest first. -/
structure Versions (α : Type*) where
  latest : α
  earlier : List α := []

namespace Versions

variable {α : Type*}

def number (versions : Versions α) : ℕ := versions.earlier.length

def commit (versions : Versions α) (value : α) : Versions α where
  latest := value
  earlier := versions.latest :: versions.earlier

/-- The version of this number, and the latest one beyond it. -/
def value (versions : Versions α) (n : ℕ) : α :=
  versions.earlier.reverse.getD n versions.latest

/-- The number of the version that a read is answered from. -/
def served (versions : Versions α) (consistent : Bool) (choice : ℕ) : ℕ :=
  if consistent then versions.number else min choice versions.number

@[simp] theorem number_commit (versions : Versions α) (a : α) :
    (versions.commit a).number = versions.number + 1 := rfl

@[simp] theorem value_number (versions : Versions α) :
    versions.value versions.number = versions.latest := by
  rw [value, List.getD_eq_default]
  exact (List.length_reverse ..).le

theorem value_commit_of_le (versions : Versions α) (a : α) {n : ℕ}
    (h : n ≤ versions.number) : (versions.commit a).value n = versions.value n := by
  rcases h.lt_or_eq with hlt | rfl
  · have hlt' : n < versions.earlier.reverse.length := by
      rwa [List.length_reverse]
    rw [value, value, commit, List.reverse_cons, List.getD_append _ _ _ _ hlt',
      List.getD_eq_getElem _ _ hlt', List.getD_eq_getElem _ _ hlt']
  · have hle : versions.earlier.reverse.length ≤ versions.number :=
      (List.length_reverse ..).le
    rw [value_number, value, commit, List.reverse_cons, List.getD_append_right _ _ _ _ hle,
      number, List.length_reverse, Nat.sub_self]
    rfl

@[simp] theorem served_true (versions : Versions α) (choice : ℕ) :
    versions.served true choice = versions.number := rfl

@[simp] theorem served_false (versions : Versions α) (choice : ℕ) :
    versions.served false choice = min choice versions.number := rfl

end Versions

end Histories
