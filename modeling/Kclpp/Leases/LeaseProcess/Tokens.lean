import Kclpp.Leases.LeaseProcess.Held
import Kclpp.Transition.Run

/-!
# Concurrency tokens

`updateLease` compares the token of its caller with that of the lease that is
held, so that a processor of an earlier ownership period is refused. This takes
that every held lease carries a token, and that no two acquisitions of a key
leave the same one. `copyWithNewConcurrencyToken` makes no new token, so both
rest on the leases that are passed in: `fenced_throughout_iff`.
-/

namespace Kclpp

namespace Leases

open Clock Dynamo Util

open Transition (run Meets Throughout)

namespace LeaseProcess

/-- A write is requested only with the token of the lease that is held, never
with that of an earlier acquisition, and no two acquisitions leave one token. -/
structure Fenced (dchecks : Bool) (p : LeaseProcess) : Prop where
  held : ∀ lease token, p.renewer.startUpdate dchecks lease token = .requests →
    ∃ held, p.ownedLeases.get lease.leaseKey = some held ∧
      held.concurrencyToken = some token
  earlier : ∀ lease token,
    some token ∈ (p.history.acquired lease.leaseKey).tail →
      p.renewer.startUpdate dchecks lease token ≠ .requests
  nodup : ∀ key, (p.history.acquired key).Nodup

/-- The tokens that acquisitions have left under a key are distinct, and the lease
that is held there has one, which is not of an earlier acquisition. -/
structure FencedAt (held : Option Lease)
    (acquired : List (Option ConcurrencyToken)) : Prop where
  nodup : acquired.Nodup
  token : ∀ lease ∈ held, lease.concurrencyToken ≠ none ∧
    lease.concurrencyToken ∉ acquired.tail

def AllFenced (p : LeaseProcess) : Prop :=
  ∀ key, FencedAt (p.ownedLeases.get key) (p.history.acquired key)

theorem startUpdate_eq_requests_iff (renewer : LeaseRenewer) (dchecks : Bool)
    (lease : Lease) (token : ConcurrencyToken) :
    renewer.startUpdate dchecks lease token = .requests ↔
      (dchecks = true → lease.concurrencyToken = some token) ∧
        ∃ held, renewer.ownedLeases.get lease.leaseKey = some held ∧
          ∀ t ∈ held.concurrencyToken, t = token := by
  unfold LeaseRenewer.startUpdate
  by_cases hdies : dchecks = true ∧ lease.concurrencyToken ≠ some token
  · rw [if_pos hdies]
    exact iff_of_false nofun fun h => hdies.2 (h.1 hdies.1)
  · rw [if_neg hdies]
    have hdchecks : dchecks = true → lease.concurrencyToken = some token :=
      fun h => not_not.mp fun hne => hdies ⟨h, hne⟩
    rw [and_iff_right hdchecks]
    cases renewer.ownedLeases.get lease.leaseKey with
    | none => simp
    | some held => cases htoken : held.concurrencyToken <;> simp [htoken]

/-- The property is one of every key by itself. -/
theorem fenced_iff (dchecks : Bool) (p : LeaseProcess) :
    Fenced dchecks p ↔ p.AllFenced := by
  constructor
  · rintro ⟨hheld, hearlier, hnodup⟩ key
    refine ⟨hnodup key, fun lease hlease => ?_⟩
    cases LeaseMap.leaseKey_of_get hlease
    have hnone : lease.concurrencyToken ≠ none := by
      intro hnone
      obtain ⟨held, hget, htoken⟩ := hheld
        { lease with concurrencyToken := some ⟨""⟩ } ⟨""⟩
        ((startUpdate_eq_requests_iff _ _ _ _).mpr
          ⟨fun _ => rfl, lease, hlease, by simp [hnone]⟩)
      cases hlease.symm.trans hget
      rw [hnone] at htoken
      cases htoken
    obtain ⟨token, htoken⟩ := Option.ne_none_iff_exists'.mp hnone
    refine ⟨hnone, fun hmem => ?_⟩
    rw [htoken] at hmem
    exact hearlier lease token hmem ((startUpdate_eq_requests_iff _ _ _ _).mpr
      ⟨fun _ => htoken, lease, hlease, by simp [htoken]⟩)
  · intro h
    have htoken : ∀ lease token,
        p.renewer.startUpdate dchecks lease token = .requests →
        ∃ held, p.ownedLeases.get lease.leaseKey = some held ∧
          held.concurrencyToken = some token := by
      intro lease token hrequests
      obtain ⟨-, held, hget, heq⟩ :=
        (startUpdate_eq_requests_iff _ _ _ _).mp hrequests
      obtain ⟨t, ht⟩ := Option.ne_none_iff_exists'.mp
        ((h lease.leaseKey).token held hget).1
      refine ⟨held, hget, ?_⟩
      rw [ht, heq t ht]
    refine ⟨htoken, fun lease token hmem hrequests => ?_, fun key => (h key).nodup⟩
    obtain ⟨held, hget, heq⟩ := htoken lease token hrequests
    refine ((h lease.leaseKey).token held hget).2 ?_
    rw [heq]
    exact hmem

/-- An acquisition finds a token under its key, or brings one, which none before
it has left. -/
def NewToken (p : LeaseProcess) (lease : Lease) : Prop :=
  let left := ((p.ownedLeases.get lease.leaseKey).getD lease).concurrencyToken
  lease.lastCounterIncrementNanoseconds ≠ none →
    left ≠ none ∧ left ∉ p.history.acquired lease.leaseKey

/-- So do the acquisitions of several leases, one after the other. -/
def NewTokens : LeaseProcess → List Lease → Prop
  | _, [] => True
  | p, lease :: leases => p.NewToken lease ∧ (p.acquire lease).NewTokens leases

theorem acquired_acquire (p : LeaseProcess) (lease : Lease) (key : LeaseKey) :
    (p.acquire lease).history.acquired key =
      if lease.leaseKey = key ∧ lease.lastCounterIncrementNanoseconds ≠ none then
        ((p.ownedLeases.get key).getD lease).concurrencyToken ::
          p.history.acquired key
      else p.history.acquired key := by
  unfold acquire
  cases hlast : lease.lastCounterIncrementNanoseconds with
  | none => simp
  | some last =>
      by_cases hkey : lease.leaseKey = key
      · subst hkey
        simp [LeaseRenewer.addLeaseToRenew, Lease.copyWithNewConcurrencyToken,
          hlast]
      · simp [hkey, Function.update_of_ne (Ne.symm hkey)]

theorem fencedAt_getD_iff {held : Option Lease}
    {acquired : List (Option ConcurrencyToken)} (h : FencedAt held acquired)
    (lease : Lease) :
    FencedAt (some (held.getD lease))
        ((held.getD lease).concurrencyToken :: acquired) ↔
      (held.getD lease).concurrencyToken ≠ none ∧
        (held.getD lease).concurrencyToken ∉ acquired := by
  constructor
  · intro h'
    exact ⟨(h'.token _ rfl).1, (List.nodup_cons.mp h'.nodup).1⟩
  · rintro ⟨hnone, hnew⟩
    refine ⟨List.nodup_cons.mpr ⟨hnew, h.nodup⟩, fun lease' hlease' => ?_⟩
    cases hlease'
    exact ⟨hnone, hnew⟩

theorem FencedAt.of_getD {held : Option Lease}
    {acquired : List (Option ConcurrencyToken)} {lease : Lease}
    (h : FencedAt (some (held.getD lease))
      ((held.getD lease).concurrencyToken :: acquired)) :
    FencedAt held acquired := by
  refine ⟨(List.nodup_cons.mp h.nodup).2, fun lease' hlease' => ?_⟩
  cases hlease'
  exact ⟨(h.token _ rfl).1, fun hmem =>
    (h.token _ rfl).2 (List.mem_of_mem_tail hmem)⟩

theorem allFenced_acquire_iff {p : LeaseProcess} (h : p.AllFenced)
    (lease : Lease) : (p.acquire lease).AllFenced ↔ p.NewToken lease := by
  constructor
  · intro h' hlast
    have hkey := h' lease.leaseKey
    rw [get_acquire, acquired_acquire, if_pos ⟨rfl, hlast⟩,
      if_pos ⟨rfl, hlast⟩] at hkey
    exact (fencedAt_getD_iff (h _) lease).mp hkey
  · intro hnew key
    rw [get_acquire, acquired_acquire]
    split_ifs with hkey
    · obtain ⟨rfl, hlast⟩ := hkey
      exact (fencedAt_getD_iff (h _) lease).mpr (hnew hlast)
    · exact h key

theorem AllFenced.of_acquire {p : LeaseProcess} {lease : Lease}
    (h : (p.acquire lease).AllFenced) : p.AllFenced := by
  intro key
  have hkey := h key
  rw [get_acquire, acquired_acquire] at hkey
  split_ifs at hkey
  · exact hkey.of_getD
  · exact hkey

theorem AllFenced.of_addLeasesToRenew {p : LeaseProcess} {leases : List Lease}
    (h : (p.addLeasesToRenew leases).AllFenced) : p.AllFenced := by
  unfold addLeasesToRenew at h
  induction leases generalizing p with
  | nil => exact h
  | cons lease leases ih => exact (ih h).of_acquire

theorem allFenced_addLeasesToRenew_iff {p : LeaseProcess} (h : p.AllFenced)
    (leases : List Lease) :
    (p.addLeasesToRenew leases).AllFenced ↔ p.NewTokens leases := by
  induction leases generalizing p with
  | nil => exact iff_of_true h trivial
  | cons lease leases ih =>
      change ((p.acquire lease).addLeasesToRenew leases).AllFenced ↔ _
      constructor
      · intro h'
        have hacquire := h'.of_addLeasesToRenew
        exact ⟨(allFenced_acquire_iff h lease).mp hacquire,
          (ih hacquire).mp h'⟩
      · rintro ⟨hnew, hrest⟩
        exact (ih ((allFenced_acquire_iff h lease).mpr hnew)).mpr hrest

theorem acquired_addLeasesToRenew_of_ne {p : LeaseProcess} {leases : List Lease}
    {key : LeaseKey} (h : ∀ lease ∈ leases, lease.leaseKey ≠ key) :
    (p.addLeasesToRenew leases).history.acquired key =
      p.history.acquired key := by
  unfold addLeasesToRenew
  induction leases generalizing p with
  | nil => rfl
  | cons lease leases ih =>
      rw [List.foldl_cons, ih fun l hl => h l (List.mem_cons_of_mem _ hl),
        acquired_acquire, if_neg]
      exact fun hand => h lease List.mem_cons_self hand.1

/-- The tokens under a key when the leases that are held have been added again. -/
def reacquired (held : Option Lease) (acquired : List (Option ConcurrencyToken)) :
    List (Option ConcurrencyToken) :=
  match held with
  | none => acquired
  | some lease =>
      if lease.lastCounterIncrementNanoseconds = none then acquired
      else lease.concurrencyToken :: acquired

theorem acquired_addLeasesToRenew_toList (p : LeaseProcess) (key : LeaseKey) :
    (p.addLeasesToRenew p.ownedLeases.toList).history.acquired key =
      reacquired (p.ownedLeases.get key) (p.history.acquired key) := by
  cases hheld : p.ownedLeases.get key with
  | none =>
      exact acquired_addLeasesToRenew_of_ne
        (LeaseMap.leaseKey_ne_of_get_eq_none hheld)
  | some lease =>
      obtain ⟨before, after, heq, hbefore, hafter⟩ :=
        LeaseMap.exists_toList_eq_append hheld
      have hsplit : p.addLeasesToRenew p.ownedLeases.toList =
          ((p.addLeasesToRenew before).acquire lease).addLeasesToRenew after := by
        rw [heq]
        exact List.foldl_append
      rw [hsplit, acquired_addLeasesToRenew_of_ne hafter, acquired_acquire,
        get_addLeasesToRenew_of_ne hbefore,
        acquired_addLeasesToRenew_of_ne hbefore, hheld]
      by_cases hlast : lease.lastCounterIncrementNanoseconds = none <;>
        simp [reacquired, hlast, LeaseMap.leaseKey_of_get hheld]

/-- Whether the callback of the renewal ends an `initialize`. -/
def leadsInitialize (p : LeaseProcess) (r : Renewal) : Bool :=
  match r.caller with
  | .inInitialize call => p.leads call
  | _ => false

/-- Whether the task ends an `initialize`. -/
def endsInitialize (input : Input) (p : LeaseProcess) : Task → Bool
  | .decideRenewal r options =>
      !p.renewer.shouldRenew options input.now r.lease && p.leadsInitialize r
  | .renewed r _ => p.leadsInitialize r
  | _ => false

/-- The callback of a renewal, at the end of an `initialize`, adds what is held
then. -/
theorem acquired_onRenewalOver (p : LeaseProcess) (r : Renewal)
    (outcome : RenewLeaseOutcome) (key : LeaseKey) :
    (p.onRenewalOver r outcome).history.acquired key =
      if p.leadsInitialize r then
        reacquired ((p.onRenewalOver r outcome).ownedLeases.get key)
          (p.history.acquired key)
      else p.history.acquired key := by
  obtain ⟨lease, issued, caller⟩ := r
  cases caller with
  | user => rfl
  | inInitialize call =>
      obtain ⟨renewer, hinsert⟩ := p.exists_insertRenewed_eq outcome
      have hleads : (p.withRenewer renewer).leads call = p.leads call := rfl
      change ((p.insertRenewed outcome).onInitializeRenewal call).history.acquired
        key = if p.leads call then reacquired
          (((p.insertRenewed outcome).onInitializeRenewal call).ownedLeases.get
            key) _ else _
      rw [get_onInitializeRenewal, hinsert, ← hleads]
      unfold onInitializeRenewal
      dsimp only
      split_ifs
      · exact acquired_addLeasesToRenew_toList
          ((p.withRenewer renewer).finishOne call) key
      · rfl
  | inRenewLeases call =>
      change (p.onRenewalOver ⟨lease, issued, .inRenewLeases call⟩
        outcome).history.acquired key = p.history.acquired key
      unfold onRenewalOver
      dsimp only
      split_ifs <;> rfl

theorem acquired_handle {input : Input} {p p' : LeaseProcess} {task : Task}
    (hp' : p.handle input task = some p') (key : LeaseKey) :
    p'.history.acquired key =
      if p.endsInitialize input task then
        reacquired (p'.ownedLeases.get key) (p.history.acquired key)
      else p.history.acquired key := by
  cases task with
  | decideRenewal r options =>
      cases hp'
      unfold onDecideRenewal
      cases hrenew : p.renewer.shouldRenew options input.now r.lease with
      | true => simp [endsInitialize, hrenew, spawn]
      | false =>
          simp only [endsInitialize, hrenew, Bool.not_false, Bool.true_and]
          exact acquired_onRenewalOver
            (p.withRenewer (p.renewer.dropLease r.lease)) r
            (LeaseRenewer.notRenewed r.lease) key
  | renewed r outcome =>
      cases hp'
      exact acquired_onRenewalOver
        (p.withRenewer (p.renewer.onRenewLease r.lease outcome)) r outcome key
  | updated call outcome =>
      cases hp'
      rfl
  | _ =>
      rw [(handle_frame rfl hp').2]
      rfl

/-- The tokens under a key after a task that goes a step further. -/
theorem acquired_advance {manager : LeaseManager} {dynamo : Service}
    {input : Input} {p p' : LeaseProcess} {i : ℕ} {task : Task}
    {tbl tbl' : Table}
    (hp' : p.advance manager dynamo input i task tbl = some (p', tbl'))
    (key : LeaseKey) :
    p'.history.acquired key =
      if p.endsInitialize input task then
        reacquired (p.heldAfter input task key) (p.history.acquired key)
      else p.history.acquired key := by
  rw [← get_advance hp' key]
  rcases advance_eq_some hp' with ⟨answer, tbl'', hrequest, -, heq⟩ |
    ⟨next, -, hnext, heq⟩
  · cases heq
    cases task <;> first | rfl | cases hrequest
  · cases heq
    exact acquired_handle hnext key

theorem fencedAt_reacquired_iff {held : Option Lease}
    {acquired : List (Option ConcurrencyToken)} :
    FencedAt held (reacquired held acquired) ↔
      FencedAt held acquired ∧
        ∀ lease ∈ held, lease.lastCounterIncrementNanoseconds ≠ none →
          lease.concurrencyToken ∉ acquired := by
  cases held with
  | none => simp [reacquired]
  | some lease =>
      by_cases hlast : lease.lastCounterIncrementNanoseconds = none
      · simp [reacquired, hlast]
      · simp only [reacquired, hlast, if_false, Option.mem_some_iff, forall_eq',
          ne_eq, not_false_eq_true, true_implies]
        constructor
        · intro h
          have hnew := (List.nodup_cons.mp h.nodup).1
          exact ⟨@FencedAt.of_getD (some lease) acquired lease h, hnew⟩
        · rintro ⟨h, hnew⟩
          exact (fencedAt_getD_iff h lease).mpr ⟨(h.token lease rfl).1, hnew⟩

/-- The step acquires leases under tokens that are new, and puts leases under
their keys only with a token, which is not of an earlier acquisition. -/
def KeepsFenced (s : System) : Step → Prop
  | .call (.addLeasesToRenew leases) => s.process.NewTokens leases
  | .advance i input => ∀ task ∈ s.process.tasks[i]?,
      (∀ lease ∈ task.puts, lease.concurrencyToken ≠ none ∧
        lease.concurrencyToken ∉
          (s.process.history.acquired lease.leaseKey).tail) ∧
      (s.process.endsInitialize input task = true →
        ∀ lease ∈ task.puts.toList ++ s.process.ownedLeases.toList,
          s.process.heldAfter input task lease.leaseKey = some lease →
          lease.lastCounterIncrementNanoseconds ≠ none →
          lease.concurrencyToken ∉ s.process.history.acquired lease.leaseKey)
  | _ => True

theorem FencedAt.of_eq_none {held : Option Lease}
    {acquired : List (Option ConcurrencyToken)} (h : FencedAt held acquired) :
    FencedAt none acquired :=
  ⟨h.nodup, nofun⟩

theorem history_call {dchecks : Bool} {p : LeaseProcess} {call : Call}
    (hcall : ∀ leases, call ≠ .addLeasesToRenew leases) :
    (p.call dchecks call).history = p.history := by
  cases call with
  | addLeasesToRenew leases => exact absurd rfl (hcall leases)
  | updateLease lease token =>
      change (p.updateLease dchecks lease token).history = p.history
      unfold updateLease
      cases p.renewer.startUpdate dchecks lease token <;> rfl
  | _ => rfl

theorem allFenced_advance_iff {manager : LeaseManager} {dynamo : Service}
    {input : Input} {p p' : LeaseProcess} {i : ℕ} {task : Task}
    {tbl tbl' : Table} (h : p.AllFenced)
    (hp' : p.advance manager dynamo input i task tbl = some (p', tbl')) :
    p'.AllFenced ↔
      (∀ lease ∈ task.puts, lease.concurrencyToken ≠ none ∧
        lease.concurrencyToken ∉ (p.history.acquired lease.leaseKey).tail) ∧
      (p.endsInitialize input task = true →
        ∀ lease ∈ task.puts.toList ++ p.ownedLeases.toList,
          p.heldAfter input task lease.leaseKey = some lease →
          lease.lastCounterIncrementNanoseconds ≠ none →
          lease.concurrencyToken ∉ p.history.acquired lease.leaseKey) := by
  have hiff : p'.AllFenced ↔ ∀ key,
      FencedAt (p.heldAfter input task key) (p.history.acquired key) ∧
      (p.endsInitialize input task = true →
        ∀ lease ∈ p.heldAfter input task key,
          lease.lastCounterIncrementNanoseconds ≠ none →
          lease.concurrencyToken ∉ p.history.acquired key) := by
    refine forall_congr' fun key => ?_
    rw [get_advance hp', acquired_advance hp']
    by_cases hends : p.endsInitialize input task = true
    · rw [if_pos hends, fencedAt_reacquired_iff]
      simp only [hends, true_implies]
    · rw [if_neg hends]
      exact (and_iff_left fun h => absurd h hends).symm
  rw [hiff]
  constructor
  · intro h'
    constructor
    · intro lease hputs
      exact (h' lease.leaseKey).1.token lease
        (heldAfter_of_puts input p hputs)
    · intro hends lease _ hlease hlast
      exact (h' lease.leaseKey).2 hends lease hlease hlast
  · rintro ⟨hputs, hnew⟩ key
    constructor
    · refine ⟨(h key).nodup, fun lease hlease => ?_⟩
      rcases heldAfter_eq_some hlease with ⟨hmem, rfl⟩ | hheld
      · exact hputs lease hmem
      · exact (h key).token lease hheld
    · intro hends lease hlease hlast
      rcases heldAfter_eq_some hlease with ⟨hmem, rfl⟩ | hheld
      · exact hnew hends lease
          (List.mem_append_left _ (Option.mem_toList.mpr hmem)) hlease hlast
      · cases LeaseMap.leaseKey_of_get hheld
        exact hnew hends lease (List.mem_append_right _
          ((LeaseMap.mem_toList_iff _ _).mpr hheld)) hlease hlast

/-- From a state that is fenced, a step leads to one exactly when it meets the
condition. -/
theorem allFenced_step_iff {manager : LeaseManager} {dynamo : Service}
    {dchecks : Bool} {s s' : System} {step : Step} (h : s.process.AllFenced)
    (hstep : s.step manager dynamo dchecks step = some s') :
    s'.process.AllFenced ↔ KeepsFenced s step := by
  rcases step_eq_some hstep with ⟨call, rfl, -, -, hs'⟩ |
    ⟨i, input, task, next, rfl, htask, hnext, -, hs'⟩ | ⟨tbl, rfl, -, hs'⟩
  · have hrecord : s'.process.AllFenced ↔
        (s.process.call dchecks call).AllFenced := by
      rw [hs']
      rfl
    rw [hrecord]
    by_cases hcall : ∃ leases, call = .addLeasesToRenew leases
    · obtain ⟨leases, rfl⟩ := hcall
      exact allFenced_addLeasesToRenew_iff h leases
    · have hne : ∀ leases, call ≠ .addLeasesToRenew leases :=
        fun leases heq => hcall ⟨leases, heq⟩
      have hkeeps : KeepsFenced s (.call call) := by
        cases call with
        | addLeasesToRenew leases => exact absurd rfl (hne leases)
        | _ => trivial
      refine iff_of_true (fun key => ?_) hkeeps
      rw [history_call hne]
      rcases get_call dchecks s.process hne key with hget | hget
      · rw [hget]
        exact (h key).of_eq_none
      · rw [hget]
        exact h key
  · have hrecord : s'.process.AllFenced ↔ next.1.AllFenced := by
      rw [hs']
      rfl
    rw [hrecord, allFenced_advance_iff h hnext]
    simp only [KeepsFenced, htask, Option.mem_some_iff, forall_eq']
  · refine iff_of_true ?_ trivial
    rw [hs']
    exact h

/-- In a run of a fresh process every state is fenced exactly when every
acquisition leaves a token that is new, and nothing else puts a lease there
without a token or with one of an earlier acquisition. -/
theorem fenced_throughout_iff (manager : LeaseManager) (dynamo : Service)
    (dchecks : Bool) {s s' : System} (hs : s.process.Fresh) {steps : List Step}
    (hr : run (System.step manager dynamo dchecks) s steps = some s') :
    Throughout (System.step manager dynamo dchecks)
        (fun s => Fenced dchecks s.process) s steps ↔
      Meets (System.step manager dynamo dchecks) KeepsFenced s steps := by
  have hstart : s.process.AllFenced := by
    intro key
    rw [hs.owned, hs.acquired]
    exact ⟨List.nodup_nil, nofun⟩
  exact (Transition.meets_iff_throughout (I := fun s => s.process.AllFenced)
    (fun s hI => (fenced_iff dchecks s.process).mpr hI)
    (fun s step s' hI hok hstep => (allFenced_step_iff hI hstep).mpr hok)
    (fun s step s' hI hstep hP => (allFenced_step_iff hI hstep).mp
      ((fenced_iff dchecks s'.process).mp hP)) hstart hr).symm

instance (p : LeaseProcess) (lease : Lease) : Decidable (p.NewToken lease) :=
  inferInstanceAs (Decidable (_ → _ ≠ none ∧ _ ∉ _))

instance decidableNewTokens :
    ∀ (p : LeaseProcess) (leases : List Lease), Decidable (p.NewTokens leases)
  | _, [] => isTrue trivial
  | p, lease :: leases =>
      have := decidableNewTokens (p.acquire lease) leases
      inferInstanceAs (Decidable (_ ∧ _))

instance (s : System) : DecidablePred (KeepsFenced s)
  | .call (.addLeasesToRenew leases) =>
      inferInstanceAs (Decidable (s.process.NewTokens leases))
  | .advance i input => inferInstanceAs (Decidable (∀ task ∈ s.process.tasks[i]?,
      (∀ lease ∈ task.puts, lease.concurrencyToken ≠ none ∧
        lease.concurrencyToken ∉
          (s.process.history.acquired lease.leaseKey).tail) ∧
      (s.process.endsInitialize input task = true →
        ∀ lease ∈ task.puts.toList ++ s.process.ownedLeases.toList,
          s.process.heldAfter input task lease.leaseKey = some lease →
          lease.lastCounterIncrementNanoseconds ≠ none →
          lease.concurrencyToken ∉ s.process.history.acquired lease.leaseKey)))
  | .elsewhere _ => isTrue trivial
  | .call .clearHeldLeases => isTrue trivial
  | .call (.dropLease _) => isTrue trivial
  | .call (.renewLease _ _) => isTrue trivial
  | .call .renewLeases => isTrue trivial
  | .call .initializeRenewer => isTrue trivial
  | .call (.updateLease _ _) => isTrue trivial
  | .call .takeLeases => isTrue trivial

/-- A lease is acquired, renewed, dropped and acquired again under another
token. -/
def sampleReacquired : List Step :=
  [.call (.addLeasesToRenew [sampleUnder ⟨"token-1"⟩]), .call .renewLeases] ++
    List.replicate 4 (.advance 0 sampleInput) ++
    [.call (.dropLease sampleHeld),
      .call (.addLeasesToRenew [sampleUnder ⟨"token-2"⟩])]

theorem fenced_throughout_sampleReacquired :
    ∃ s, run (System.step sampleManager sampleDynamo true) sampleStart
        sampleReacquired = some s ∧
      Throughout (System.step sampleManager sampleDynamo true)
        (fun s => Fenced true s.process) sampleStart sampleReacquired :=
  ⟨_, rfl, (fenced_throughout_iff sampleManager sampleDynamo true
    fresh_sampleStart rfl).mpr (by decide +kernel)⟩

/-- A lease as the taker reads it from the table has no token, and once it is
held every token is as good as any other. A lease that is acquired again keeps
the token it had in the earlier period. -/
theorem concurrencyToken_unfenced :
    (∃ s, run (System.step sampleManager sampleDynamo true) sampleStart
        [.call (.addLeasesToRenew [sampleHeld])] = some s ∧
      (s.process.ownedLeases.get sampleHeld.leaseKey).map
        (fun held => held.concurrencyToken) = some none ∧
      s.process.renewer.startUpdate true (sampleUnder ⟨"token-1"⟩) ⟨"token-1"⟩ =
        .requests) ∧
    ∃ s, run (System.step sampleManager sampleDynamo true) sampleStart
        [.call (.addLeasesToRenew [sampleUnder ⟨"token-1"⟩]),
          .call (.dropLease sampleHeld),
          .call (.addLeasesToRenew [sampleUnder ⟨"token-1"⟩])] = some s ∧
      s.process.history.acquired sampleHeld.leaseKey =
        [some ⟨"token-1"⟩, some ⟨"token-1"⟩] ∧
      s.process.renewer.startUpdate true (sampleUnder ⟨"token-1"⟩) ⟨"token-1"⟩ =
        .requests := by
  refine ⟨⟨_, rfl, ?_⟩, _, rfl, ?_⟩
  · decide +kernel
  · decide +kernel

end LeaseProcess

end Leases

end Kclpp
