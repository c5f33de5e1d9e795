import Kclpp.AsyncGroup

/-!
# Accounts of calls

A call is worked on by one message, request or answer at a time, or it has been
fanned out and an `AsyncGroup` counts the operations that are over. Its account
says how many of the two kinds are outstanding and how often the call has been
answered. In a settled account something is outstanding and the call has not
been answered, or nothing is and it has been answered once.
-/

namespace Kclpp

/-- What is outstanding for a call, of its own and of its operations, how often
it has been answered, and the group of its fan-out. -/
structure CallAccount where
  own : ℕ
  parts : ℕ
  answered : ℕ
  group : AsyncGroup
  deriving DecidableEq, Repr

namespace CallAccount

/-- The call is being worked on and has not been answered, or the opposite. -/
inductive Settled : CallAccount → Prop where
  | working (group : AsyncGroup) : Settled ⟨1, 0, 0, group⟩
  | fannedOut (parts counter : ℕ) :
      Settled ⟨0, parts + 1, 0, ⟨counter + (parts + 1), counter, false⟩⟩
  | answered (group : AsyncGroup) : Settled ⟨0, 0, 1, group⟩

def Blank (account : CallAccount) : Prop :=
  account.own = 0 ∧ account.parts = 0 ∧ account.answered = 0

/-- Once the call is settled, it has been answered exactly once when nothing is
outstanding, and not before. -/
theorem Settled.answered_eq {account : CallAccount} (h : Settled account) :
    account.answered = if account.own + account.parts = 0 then 1 else 0 := by
  cases h <;> simp

/-- Nothing else is outstanding for a call that is being worked on. -/
theorem Settled.eq_zero {own parts answered : ℕ} {group : AsyncGroup}
    (h : Settled ⟨own + 1, parts, answered, group⟩) :
    own = 0 ∧ parts = 0 ∧ answered = 0 := by
  cases h
  exact ⟨rfl, rfl, rfl⟩

/-- The call is answered. -/
theorem Settled.finish {own parts answered : ℕ} {group : AsyncGroup}
    (h : Settled ⟨own + 1, parts, answered, group⟩) :
    Settled ⟨own, parts, answered + 1, group⟩ := by
  cases h
  exact Settled.answered group

/-- The call is fanned out, over one operation at least. -/
theorem Settled.fanOut {own parts answered num : ℕ} {group : AsyncGroup}
    (h : Settled ⟨own + 1, parts, answered, group⟩) (hnum : 0 < num) :
    Settled ⟨own, parts + num, answered, { target := num }⟩ := by
  obtain ⟨num, rfl⟩ := Nat.exists_eq_add_of_le' hnum
  cases h
  have hsettled := Settled.fannedOut num 0
  rw [Nat.zero_add] at hsettled ⊢
  exact hsettled

/-- An operation is over, and the last one answers the call. -/
theorem Settled.finishOne {own parts answered : ℕ} {group : AsyncGroup}
    (h : Settled ⟨own, parts + 1, answered, group⟩) :
    Settled ⟨own, parts, answered + (if group.finishOne.1 then 1 else 0),
      group.finishOne.2⟩ := by
  cases h with
  | fannedOut parts counter =>
      cases parts with
      | zero =>
          rw [AsyncGroup.finishOne_of_eq rfl]
          exact Settled.answered _
      | succ parts =>
          rw [AsyncGroup.finishOne_of_ne (by omega)]
          have hsettled := Settled.fannedOut parts (counter + 1)
          rw [show counter + 1 + (parts + 1) = counter + (parts + 1 + 1) by omega]
            at hsettled
          exact hsettled

end CallAccount

end Kclpp
