import Kclpp.Leases.LeaseProcess.Basic

/-!
# What the renewer holds after a step

`heldAfter` says what the callback of a task leaves under a key: a renewal that
has succeeded and an update that has put the lease there, a renewal that has
failed or was not made removes it, and nothing else has an effect. The last
renewal of `initialize` passes the leases that are held to `addLeasesToRenew`,
which keeps them as they are.
-/

namespace Kclpp

namespace Leases

open Clock Dynamo Util

namespace LeaseProcess

theorem get_acquire (p : LeaseProcess) (lease : Lease) (key : LeaseKey) :
    (p.acquire lease).ownedLeases.get key =
      if lease.leaseKey = key ∧ lease.lastCounterIncrementNanoseconds ≠ none then
        some ((p.ownedLeases.get key).getD lease)
      else p.ownedLeases.get key := by
  unfold acquire
  cases hlast : lease.lastCounterIncrementNanoseconds with
  | none => simp
  | some last =>
      simp [LeaseRenewer.addLeaseToRenew, Lease.copyWithNewConcurrencyToken,
        ownedLeases, hlast]

theorem get_addLeasesToRenew_of_held {p : LeaseProcess} {leases : List Lease}
    {key : LeaseKey} (h : p.ownedLeases.get key ≠ none) :
    (p.addLeasesToRenew leases).ownedLeases.get key = p.ownedLeases.get key := by
  unfold addLeasesToRenew
  induction leases generalizing p with
  | nil => rfl
  | cons lease leases ih =>
      have hkeep : (p.acquire lease).ownedLeases.get key =
          p.ownedLeases.get key := by
        obtain ⟨held, hheld⟩ := Option.ne_none_iff_exists'.mp h
        rw [get_acquire, hheld]
        simp
      rw [List.foldl_cons, ih, hkeep]
      rw [hkeep]
      exact h

theorem get_addLeasesToRenew_of_ne {p : LeaseProcess} {leases : List Lease}
    {key : LeaseKey} (h : ∀ lease ∈ leases, lease.leaseKey ≠ key) :
    (p.addLeasesToRenew leases).ownedLeases.get key = p.ownedLeases.get key := by
  unfold addLeasesToRenew
  induction leases generalizing p with
  | nil => rfl
  | cons lease leases ih =>
      rw [List.foldl_cons, ih fun l hl => h l (List.mem_cons_of_mem _ hl),
        get_acquire, if_neg]
      exact fun hand => h lease List.mem_cons_self hand.1

theorem get_addLeasesToRenew_toList (p : LeaseProcess) (key : LeaseKey) :
    (p.addLeasesToRenew p.ownedLeases.toList).ownedLeases.get key =
      p.ownedLeases.get key := by
  by_cases h : p.ownedLeases.get key = none
  · exact get_addLeasesToRenew_of_ne (LeaseMap.leaseKey_ne_of_get_eq_none h)
  · exact get_addLeasesToRenew_of_held h

theorem get_onInitializeRenewal (p : LeaseProcess) (call : ℕ) (key : LeaseKey) :
    (p.onInitializeRenewal call).ownedLeases.get key =
      p.ownedLeases.get key := by
  unfold onInitializeRenewal
  dsimp only
  split_ifs
  · exact get_addLeasesToRenew_toList (p.finishOne call) key
  · rfl

theorem get_onRenewalOver (p : LeaseProcess) (r : Renewal)
    (outcome : RenewLeaseOutcome) (key : LeaseKey) :
    (p.onRenewalOver r outcome).ownedLeases.get key = p.ownedLeases.get key ∨
      ∃ result, outcome = .ok result ∧ result.renewed = true ∧
        (p.onRenewalOver r outcome).ownedLeases.get key =
          if result.lease.leaseKey = key then some result.lease
          else p.ownedLeases.get key := by
  obtain ⟨lease, issued, caller⟩ := r
  cases caller with
  | user => exact Or.inl rfl
  | inInitialize call =>
      change ((p.insertRenewed outcome).onInitializeRenewal call).ownedLeases.get
        key = _ ∨ ∃ result, _ ∧ _ ∧
          ((p.insertRenewed outcome).onInitializeRenewal call).ownedLeases.get
            key = _
      rw [get_onInitializeRenewal]
      cases outcome with
      | error e => exact Or.inl rfl
      | ok result =>
          by_cases hrenewed : result.renewed = true
          · refine Or.inr ⟨result, rfl, hrenewed, ?_⟩
            simp [insertRenewed, hrenewed, withRenewer, ownedLeases,
              LeaseRenewer.safeInsertLease]
          · exact Or.inl (by simp [insertRenewed, hrenewed])
  | inRenewLeases call =>
      left
      unfold onRenewalOver
      dsimp only
      split_ifs <;> rfl

/-- What is held under a key after the callback of a task. -/
def heldAfter (input : Input) (p : LeaseProcess) (task : Task)
    (key : LeaseKey) : Option Lease :=
  match task with
  | .decideRenewal r options =>
      if p.renewer.shouldRenew options input.now r.lease = false ∧
          r.lease.leaseKey = key then none
      else p.ownedLeases.get key
  | .renewed r (.error _) =>
      if r.lease.leaseKey = key then none else p.ownedLeases.get key
  | .renewed _ (.ok result) =>
      if result.lease.leaseKey = key then some result.lease
      else p.ownedLeases.get key
  | .updated _ (.ok result) =>
      if result.updated = true ∧ result.lease.leaseKey = key then
        some result.lease
      else p.ownedLeases.get key
  | _ => p.ownedLeases.get key

def Task.touchesRenewer : Task → Bool
  | .decideRenewal _ _ => true
  | .renewed _ _ => true
  | .updated _ _ => true
  | _ => false

theorem handle_frame {input : Input} {p p' : LeaseProcess} {task : Task}
    (htask : task.touchesRenewer = false) (hp' : p.handle input task = some p') :
    p'.renewer = p.renewer ∧ p'.history = p.history := by
  cases task with
  | decideRenewal r options => cases htask
  | renewed r outcome => cases htask
  | updated call outcome => cases htask
  | postedInitialize call =>
      cases hp'
      exact ⟨rfl, rfl⟩
  | listedForInitialize call outcome =>
      cases hp'
      unfold onListedForInitialize
      cases outcome with
      | error e => exact ⟨rfl, rfl⟩
      | ok leases =>
          dsimp only
          split_ifs <;> exact ⟨rfl, rfl⟩
  | postedRenewLeases call =>
      cases hp'
      exact ⟨rfl, rfl⟩
  | listedForTaker call outcome =>
      cases hp'
      unfold onListedForTaker
      cases outcome with
      | error e => exact ⟨rfl, rfl⟩
      | ok leases =>
          dsimp only
          split_ifs <;> exact ⟨rfl, rfl⟩
  | taken call outcome =>
      cases hp'
      unfold onTaken
      dsimp only
      split_ifs <;> exact ⟨rfl, rfl⟩
  | listForInitialize call => cases hp'
  | renewal r => cases hp'
  | update call lease => cases hp'
  | listForTaker call => cases hp'
  | take call lease => cases hp'

theorem get_handle {input : Input} {p p' : LeaseProcess} {task : Task}
    (hp' : p.handle input task = some p') (key : LeaseKey) :
    p'.ownedLeases.get key = p.heldAfter input task key := by
  cases task with
  | decideRenewal r options =>
      cases hp'
      unfold onDecideRenewal heldAfter
      by_cases hrenew : p.renewer.shouldRenew options input.now r.lease = true
      · simp [hrenew, spawn, ownedLeases]
      · rw [if_neg hrenew]
        rcases get_onRenewalOver
          (p.withRenewer (p.renewer.dropLease r.lease)) r
          (LeaseRenewer.notRenewed r.lease) key with h | ⟨result, h, hrenewed, -⟩
        · rw [h]
          simp [hrenew, withRenewer, ownedLeases, LeaseRenewer.dropLease]
        · cases h
          cases hrenewed
  | renewed r outcome =>
      cases hp'
      unfold onRenewed
      have hover := get_onRenewalOver
        (p.withRenewer (p.renewer.onRenewLease r.lease outcome)) r outcome key
      cases outcome with
      | error e =>
          rcases hover with h | ⟨result, h, -, -⟩
          · rw [h]
            simp [heldAfter, withRenewer, ownedLeases, LeaseRenewer.onRenewLease,
              LeaseRenewer.dropLease]
          · cases h
      | ok result =>
          have hreplaced : (p.withRenewer (p.renewer.onRenewLease r.lease
              (.ok result))).ownedLeases.get key =
              p.heldAfter input (.renewed r (.ok result)) key := by
            simp [heldAfter, withRenewer, ownedLeases, LeaseRenewer.onRenewLease,
              LeaseRenewer.replaceRenewedLease]
          rcases hover with h | ⟨result', h, -, h'⟩
          · rw [h, hreplaced]
          · cases h
            rw [h', hreplaced]
            simp only [heldAfter]
            split_ifs <;> rfl
  | updated call outcome =>
      cases hp'
      cases outcome with
      | error e => rfl
      | ok result =>
          by_cases hupdated : result.updated = true <;>
            simp [onUpdated, LeaseProcess.answer, withRenewer, heldAfter,
              ownedLeases, LeaseRenewer.onUpdateLease,
              LeaseRenewer.safeInsertLease, hupdated]
  | _ =>
      rw [ownedLeases, (handle_frame rfl hp').1]
      rfl

/-- What a task that goes a step further leaves under a key. -/
theorem get_advance {manager : LeaseManager} {dynamo : Service} {input : Input}
    {p p' : LeaseProcess} {i : ℕ} {task : Task} {tbl tbl' : Table}
    (hp' : p.advance manager dynamo input i task tbl = some (p', tbl'))
    (key : LeaseKey) :
    p'.ownedLeases.get key = p.heldAfter input task key := by
  rcases advance_eq_some hp' with ⟨answer, tbl'', hrequest, -, heq⟩ |
    ⟨next, -, hnext, heq⟩
  · cases heq
    cases task <;> first | rfl | cases hrequest
  · cases heq
    exact get_handle hnext key

/-- The lease that the callback of a task puts under its key. -/
def Task.puts : Task → Option Lease
  | .renewed _ (.ok result) => some result.lease
  | .updated _ (.ok result) => if result.updated then some result.lease else none
  | _ => none

theorem heldAfter_eq_some {input : Input} {p : LeaseProcess} {task : Task}
    {key : LeaseKey} {lease : Lease}
    (h : p.heldAfter input task key = some lease) :
    (lease ∈ task.puts ∧ lease.leaseKey = key) ∨
      p.ownedLeases.get key = some lease := by
  cases task with
  | decideRenewal r options =>
      simp only [heldAfter] at h
      split_ifs at h
      exact Or.inr h
  | renewed r outcome =>
      cases outcome with
      | error e =>
          simp only [heldAfter] at h
          split_ifs at h
          exact Or.inr h
      | ok result =>
          simp only [heldAfter] at h
          split_ifs at h with hkey
          · cases h
            exact Or.inl ⟨rfl, hkey⟩
          · exact Or.inr h
  | updated call outcome =>
      cases outcome with
      | error e => exact Or.inr h
      | ok result =>
          simp only [heldAfter] at h
          split_ifs at h with hkey
          · cases h
            refine Or.inl ⟨?_, hkey.2⟩
            rw [Task.puts, if_pos hkey.1, Option.mem_some_iff]
          · exact Or.inr h
  | _ => exact Or.inr h

theorem heldAfter_of_puts (input : Input) (p : LeaseProcess) {task : Task}
    {lease : Lease} (h : lease ∈ task.puts) :
    p.heldAfter input task lease.leaseKey = some lease := by
  cases task with
  | renewed r outcome =>
      cases outcome with
      | error e => cases h
      | ok result =>
          cases h
          simp [heldAfter]
  | updated call outcome =>
      cases outcome with
      | error e => cases h
      | ok result =>
          simp only [Task.puts] at h
          split_ifs at h with hupdated
          · cases h
            simp [heldAfter, hupdated]
          · cases h
  | _ => cases h

/-- A call removes leases or keeps them, unless it is `addLeasesToRenew`. -/
theorem get_call (dchecks : Bool) (p : LeaseProcess) {call : Call}
    (hcall : ∀ leases, call ≠ .addLeasesToRenew leases) (key : LeaseKey) :
    (p.call dchecks call).ownedLeases.get key = none ∨
      (p.call dchecks call).ownedLeases.get key = p.ownedLeases.get key := by
  cases call with
  | addLeasesToRenew leases => exact absurd rfl (hcall leases)
  | clearHeldLeases => exact Or.inl (LeaseMap.get_empty key)
  | dropLease lease =>
      change (p.ownedLeases.erase lease.leaseKey).get key = none ∨
        (p.ownedLeases.erase lease.leaseKey).get key = p.ownedLeases.get key
      rw [LeaseMap.get_erase]
      exact ite_eq_or_eq _ _ _
  | updateLease lease token =>
      right
      change (p.updateLease dchecks lease token).ownedLeases.get key = _
      unfold updateLease
      cases p.renewer.startUpdate dchecks lease token <;> rfl
  | renewLease lease options => exact Or.inr rfl
  | renewLeases => exact Or.inr rfl
  | initializeRenewer => exact Or.inr rfl
  | takeLeases => exact Or.inr rfl

@[simp] theorem ownedLeases_record (called : Bool) (before after : LeaseProcess) :
    (record called before after).ownedLeases = after.ownedLeases := rfl

end LeaseProcess

end Leases

end Kclpp
