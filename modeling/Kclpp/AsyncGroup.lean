import Mathlib

/-!
# Groups of asynchronous operations

`AsyncGroup` counts the operations of one fan-out that have finished. The caller
that finds the group done and becomes its leader answers for all of them.
-/

namespace Kclpp

/-- `AsyncGroup`, with its target. -/
structure AsyncGroup where
  target : ℕ
  counter : ℕ := 0
  leaderChosen : Bool := false
  deriving DecidableEq, Repr

namespace AsyncGroup

def post (group : AsyncGroup) : AsyncGroup :=
  { group with counter := group.counter + 1 }

def isDone (group : AsyncGroup) : Bool := group.counter = group.target

/-- `AsyncGroup::becomeLeader`: whether the caller is the leader. -/
def becomeLeader (group : AsyncGroup) : Bool × AsyncGroup :=
  (!group.leaderChosen, { group with leaderChosen := true })

/-- What every callback of a fan-out does last: post, and where the group is
done try to become its leader. -/
def finishOne (group : AsyncGroup) : Bool × AsyncGroup :=
  if group.post.isDone then group.post.becomeLeader else (false, group.post)

theorem finishOne_of_ne {target counter : ℕ} (h : counter + 1 ≠ target)
    (leaderChosen : Bool) :
    finishOne ⟨target, counter, leaderChosen⟩ =
      (false, ⟨target, counter + 1, leaderChosen⟩) := by
  simp [finishOne, post, isDone, h]

/-- The callback that completes the group becomes its leader. -/
theorem finishOne_of_eq {target counter : ℕ} (h : counter + 1 = target) :
    finishOne ⟨target, counter, false⟩ = (true, ⟨target, counter + 1, true⟩) := by
  simp [finishOne, post, isDone, becomeLeader, h]

end AsyncGroup

end Kclpp
