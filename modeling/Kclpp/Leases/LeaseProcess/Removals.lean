import Kclpp.Leases.LeaseProcess.Held
import Kclpp.Transition.Run

/-!
# Leases that have been removed

Once a lease has been removed it should stay away until a call that is issued
afterwards adds it. What can put it back before is the successful answer to an
older renewal or update, since both put the lease under its key without looking
what has become of it: `staysRemoved_iff`.
-/

namespace Kclpp

namespace Leases

open Clock Dynamo Util

open Transition (run Meets)

namespace LeaseProcess

/-- The key under which the callback of a task puts a lease. -/
def Task.adds (task : Task) : Option LeaseKey :=
  task.puts.map fun lease => lease.leaseKey

/-- When the call of `renewLease` or `updateLease` was issued whose answer the
task is. -/
def Task.issued : Task → Option ℕ
  | .renewed r _ => some r.issued
  | .updated call _ => some call
  | _ => none

/-- When the call was issued that may add leases in this step. -/
def System.issuedBy (s : System) : Step → Option ℕ
  | .call (.addLeasesToRenew _) => some s.process.time
  | .advance i _ => s.process.tasks[i]?.bind Task.issued
  | _ => none

/-- The step adds a lease that has been removed only where it is that of a call
which was issued after the removal. -/
def StaysRemoved (manager : LeaseManager) (dynamo : Service) (dchecks : Bool)
    (s : System) (step : Step) : Prop :=
  ∀ s', s.step manager dynamo dchecks step = some s' →
    ∀ key t, s.process.history.removedAt key = some t →
      s.process.ownedLeases.get key = none →
      s'.process.ownedLeases.get key ≠ none →
      ∃ issued, s.issuedBy step = some issued ∧ t < issued

/-- The step does not handle the successful answer to a call that was issued
before its lease was removed, while the lease is still away. -/
def NoLateSuccess (s : System) : Step → Prop
  | .advance i _ => ∀ task ∈ s.process.tasks[i]?, ∀ key ∈ task.adds,
      s.process.ownedLeases.get key = none →
      ∀ t ∈ s.process.history.removedAt key, ∀ issued ∈ task.issued, t < issued
  | _ => True

/-- Only the answers of `renewLease` and `updateLease` put leases under keys that
are not held. -/
theorem adds_of_heldAfter {input : Input} {p : LeaseProcess} {task : Task}
    {key : LeaseKey} (h : p.ownedLeases.get key = none)
    (hafter : p.heldAfter input task key ≠ none) : task.adds = some key := by
  obtain ⟨lease, hlease⟩ := Option.ne_none_iff_exists'.mp hafter
  rcases heldAfter_eq_some hlease with ⟨hputs, hkey⟩ | hheld
  · exact Option.map_eq_some_iff.mpr ⟨lease, hputs, hkey⟩
  · rw [h] at hheld
    cases hheld

theorem heldAfter_of_adds (input : Input) (p : LeaseProcess) {task : Task}
    {key : LeaseKey} (h : task.adds = some key) :
    p.heldAfter input task key ≠ none := by
  obtain ⟨lease, hputs, rfl⟩ := Option.map_eq_some_iff.mp h
  rw [heldAfter_of_puts input p hputs]
  exact Option.some_ne_none lease

theorem issued_of_adds {task : Task} {key : LeaseKey}
    (h : task.adds = some key) : ∃ issued, task.issued = some issued := by
  cases task with
  | renewed r outcome => exact ⟨_, rfl⟩
  | updated call outcome => exact ⟨_, rfl⟩
  | _ => cases h

def RemovedBefore (p : LeaseProcess) : Prop :=
  ∀ key t, p.history.removedAt key = some t → t < p.time

theorem RemovedBefore.record {p : LeaseProcess} (h : p.RemovedBefore)
    (called : Bool) (next : LeaseProcess) :
    (record called p next).RemovedBefore := by
  intro key t ht
  change (if _ then some p.time else p.history.removedAt key) = some t at ht
  change t < p.time + 1
  split_ifs at ht
  · cases ht
    exact Nat.lt_succ_self _
  · exact (h key t ht).trans (Nat.lt_succ_self _)

theorem removedBefore_step {manager : LeaseManager} {dynamo : Service}
    {dchecks : Bool} {s s' : System} {step : Step}
    (h : s.process.RemovedBefore)
    (hstep : s.step manager dynamo dchecks step = some s') :
    s'.process.RemovedBefore := by
  rcases step_eq_some hstep with ⟨call, -, -, -, hs'⟩ |
    ⟨i, input, task, next, -, -, -, -, hs'⟩ | ⟨tbl, -, -, hs'⟩
  · rw [hs']
    exact h.record _ _
  · rw [hs']
    exact h.record _ _
  · rw [hs']
    exact h.record _ _

/-- A step keeps removed leases away exactly when it does not handle a late
success. -/
theorem staysRemoved_step_iff {manager : LeaseManager} {dynamo : Service}
    {dchecks : Bool} {s s' : System} {step : Step}
    (h : s.process.RemovedBefore)
    (hstep : s.step manager dynamo dchecks step = some s') :
    StaysRemoved manager dynamo dchecks s step ↔ NoLateSuccess s step := by
  rcases step_eq_some hstep with ⟨call, rfl, -, -, hs'⟩ |
    ⟨i, input, task, next, rfl, htask, hnext, -, hs'⟩ | ⟨tbl, rfl, -, hs'⟩
  · refine iff_of_true (fun u hu key t ht hnone hadded => ?_) trivial
    rw [hstep] at hu
    cases hu
    rw [hs', ownedLeases_record] at hadded
    by_cases hcall : ∃ leases, call = .addLeasesToRenew leases
    · obtain ⟨leases, rfl⟩ := hcall
      exact ⟨_, rfl, h key t ht⟩
    · rcases get_call dchecks s.process
        (fun leases heq => hcall ⟨leases, heq⟩) key with hget | hget
      · exact absurd hget hadded
      · exact absurd (hget.trans hnone) hadded
  · have hget : ∀ key, s'.process.ownedLeases.get key =
        s.process.heldAfter input task key := by
      intro key
      rw [hs', ownedLeases_record, get_advance hnext]
    have hissued : s.issuedBy (.advance i input) = task.issued := by
      rw [System.issuedBy, htask, Option.bind_some]
    constructor
    · intro hstays task' htask' key hadds hnone t ht issued hi
      rw [Option.mem_def, htask] at htask'
      cases htask'
      obtain ⟨issued', hi', hlt⟩ := hstays s' hstep key t ht hnone (by
        rw [hget]
        exact heldAfter_of_adds input s.process hadds)
      rw [hissued, hi] at hi'
      cases hi'
      exact hlt
    · intro hlate u hu key t ht hnone hadded
      rw [hstep] at hu
      cases hu
      rw [hget] at hadded
      have hadds := adds_of_heldAfter hnone hadded
      obtain ⟨issued, hi⟩ := issued_of_adds hadds
      exact ⟨issued, hissued.trans hi,
        hlate task htask key hadds hnone t ht issued hi⟩
  · refine iff_of_true (fun u hu key t ht hnone hadded => ?_) trivial
    rw [hstep] at hu
    cases hu
    rw [hs'] at hadded
    exact absurd hnone hadded

/-- In a run of a process, every step keeps removed leases away until a call that
is issued afterwards adds them, exactly when no step handles the successful
answer to an older call while the lease is away. -/
theorem staysRemoved_iff (manager : LeaseManager) (dynamo : Service)
    (dchecks : Bool) {s s' : System} (hs : s.process.Fresh) {steps : List Step}
    (hr : run (System.step manager dynamo dchecks) s steps = some s') :
    Meets (System.step manager dynamo dchecks)
        (StaysRemoved manager dynamo dchecks) s steps ↔
      Meets (System.step manager dynamo dchecks) NoLateSuccess s steps := by
  have hbefore : s.process.RemovedBefore := by
    intro key t ht
    rw [hs.removed key] at ht
    cases ht
  exact Transition.meets_iff_meets (I := fun s => s.process.RemovedBefore)
    (fun _ _ _ hI hstep => removedBefore_step hI hstep)
    (fun _ _ _ hI hstep => staysRemoved_step_iff hI hstep) hbefore hr

instance (s : System) : DecidablePred (NoLateSuccess s)
  | .advance i _ => inferInstanceAs (Decidable (∀ task ∈ s.process.tasks[i]?,
      ∀ key ∈ task.adds, s.process.ownedLeases.get key = none →
      ∀ t ∈ s.process.history.removedAt key, ∀ issued ∈ task.issued, t < issued))
  | .call _ => isTrue trivial
  | .elsewhere _ => isTrue trivial

/-- A lease is added and renewed. It is dropped while a second renewal is on its way,
which is refused because the row has gone, and added again. -/
def sampleRenewed : List Step :=
  [.call (.addLeasesToRenew [sampleHeld]), .call .renewLeases] ++
    List.replicate 4 (.advance 0 sampleInput) ++
    [.call .renewLeases, .advance 0 sampleInput, .advance 0 sampleInput,
      .call (.dropLease sampleHeld), .elsewhere Table.empty, .advance 0 sampleInput,
      .advance 0 sampleInput, .call (.addLeasesToRenew [sampleHeld])]

theorem staysRemoved_sampleRenewed :
    ∃ s, run (System.step sampleManager sampleDynamo true) sampleStart
        sampleRenewed = some s ∧
      s.process.history.removedAt sampleHeld.leaseKey = some 9 ∧
      s.process.ownedLeases.get sampleHeld.leaseKey ≠ none ∧
      Meets (System.step sampleManager sampleDynamo true)
        (StaysRemoved sampleManager sampleDynamo true) sampleStart
        sampleRenewed :=
  ⟨_, rfl, by decide +kernel, by decide +kernel,
    (staysRemoved_iff sampleManager sampleDynamo true fresh_sampleStart rfl).mpr
      (by decide +kernel)⟩

/-- A lease is dropped at the time 4, while the renewal that was issued for it at
the time 2 is on its way. The answer puts the lease back. -/
theorem dropLease_undone :
    ∃ s s', run (System.step sampleManager sampleDynamo true) sampleStart
        ([.call (.addLeasesToRenew [sampleHeld]), .call .renewLeases,
          .advance 0 sampleInput, .advance 0 sampleInput,
          .call (.dropLease sampleHeld), .advance 0 sampleInput]) = some s ∧
      s.step sampleManager sampleDynamo true (.advance 0 sampleInput) = some s' ∧
      s.process.history.removedAt sampleHeld.leaseKey = some 4 ∧
      s.process.ownedLeases.get sampleHeld.leaseKey = none ∧
      s'.process.ownedLeases.get sampleHeld.leaseKey ≠ none ∧
      s.issuedBy (.advance 0 sampleInput) = some 2 := by
  refine ⟨_, _, rfl, rfl, ?_⟩
  decide +kernel

end LeaseProcess

end Leases

end Kclpp
