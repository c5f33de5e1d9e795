import Kclpp.Containers.TakenOut
import Kclpp.Leases.LeaseManager.Agreement
import Kclpp.Leases.LeaseProcess.Held
import Kclpp.Transition.Run

/-!
# Leases that a worker keeps from itself

A worker renews the leases it holds and checkpoints them, and nobody else writes
their rows. Both are conditional writes of one row, so they compete with each
other. An update that is accepted hands back the lease it was built from, which
its own write has outdated; an answer of a renewal that lost against another one
drops the lease. `retained_throughout` says when the worker keeps the lease.
-/

namespace Kclpp

namespace Leases

open Clock Dynamo Util

open Transition (run Meets Throughout)

def SameVersion (key : LeaseKey) (tbl tbl' : Table) : Prop :=
  attributeOf (tbl'.row key.value) "leaseOwner" =
      attributeOf (tbl.row key.value) "leaseOwner" ∧
    attributeOf (tbl'.row key.value) "leaseCounter" =
      attributeOf (tbl.row key.value) "leaseCounter"

theorem SameVersion.refl (key : LeaseKey) (tbl : Table) :
    SameVersion key tbl tbl := ⟨rfl, rfl⟩

theorem SameVersion.of_row {key : LeaseKey} {tbl tbl' : Table}
    (h : tbl'.row key.value = tbl.row key.value) : SameVersion key tbl tbl' := by
  rw [SameVersion, h]
  exact ⟨rfl, rfl⟩

/-- A lease under the key that agrees with the row. -/
def IsCurrent (key : LeaseKey) (tbl : Table) (lease : Lease) : Prop :=
  lease.leaseKey = key ∧ AgreesWith tbl lease

theorem SameVersion.isCurrent_iff {key : LeaseKey} {tbl tbl' : Table}
    (h : SameVersion key tbl tbl') (lease : Lease) :
    IsCurrent key tbl' lease ↔ IsCurrent key tbl lease := by
  refine and_congr_right fun hkey => ?_
  rw [agreesWith_iff, agreesWith_iff, hkey, h.1, h.2]

/-- A renewal hands back a lease that agrees with the row, or is refused for one
that does not. -/
theorem renewLease_cases (manager : LeaseManager) (dynamo : Service)
    (lease : Lease) (tbl : Table) :
    (∃ tbl', manager.renewLease dynamo lease tbl =
        (tbl', .ok ⟨true, lease.copySharedWithIncrementedCounter⟩) ∧
      AgreesWith tbl' lease.copySharedWithIncrementedCounter) ∨
    ∃ e, manager.renewLease dynamo lease tbl = (tbl, .error e) ∧
      (dynamo.reaches (some manager.tableName) = true →
        ¬ AgreesWith tbl lease) := by
  have hupdate : (LeaseCall.renewLease lease).isUpdate = true := rfl
  rcases manager.renewLease_cases dynamo lease tbl with
    ⟨tbl', heq, hperform⟩ | ⟨e, heq, hperform⟩
  · refine Or.inl ⟨tbl', heq, ?_⟩
    rw [LeaseCall.agreesWith_of_perform_iff hupdate hperform _
      (Lease.leaseKey_copySharedWithIncrementedCounter lease)]
    exact ⟨Lease.leaseOwner_copySharedWithIncrementedCounter lease,
      leaseCounter_copySharedWithIncrementedCounter lease⟩
  · refine Or.inr ⟨e, heq, fun hreach hagrees => ?_⟩
    obtain ⟨tbl'', hok⟩ :=
      LeaseCall.exists_perform_eq_ok hupdate hreach hagrees
    rw [hperform] at hok
    cases hok

theorem updateLease_cases (manager : LeaseManager) (dynamo : Service)
    (lease : Lease) (tbl : Table) :
    (∃ tbl', LeaseManager.updateLease dynamo lease tbl =
        (tbl', .ok ⟨true, lease⟩) ∧
      (LeaseCall.updateLease lease).writes manager dynamo tbl = true) ∨
    ∃ e, LeaseManager.updateLease dynamo lease tbl = (tbl, .error e) := by
  have hupdate : (LeaseCall.updateLease lease).isUpdate = true := rfl
  rcases LeaseManager.updateLease_cases manager dynamo lease tbl with
    ⟨tbl', heq, hperform⟩ | ⟨e, heq, -⟩
  · refine Or.inl ⟨tbl', heq, ?_⟩
    obtain ⟨hreach, hmatch, -, -⟩ :=
      (LeaseCall.perform_eq_ok_iff_of_isUpdate _ _ hupdate _ _ _).mp hperform
    simp only [LeaseCall.writes, hreach, hupdate, hmatch, if_true,
      Bool.and_self]
  · exact Or.inr ⟨e, heq⟩

namespace LeaseProcess

/-- The lease that a renewal takes to the store or brings back. -/
def Task.carried : Task → Option Lease
  | .decideRenewal r _ => some r.lease
  | .renewal r => some r.lease
  | .renewed _ (.ok result) => some result.lease
  | _ => none

def Task.Carries (key : LeaseKey) (tbl : Table) (task : Task) : Prop :=
  ∃ lease ∈ task.carried, IsCurrent key tbl lease

/-- The lease whose renewal is to be decided on. -/
def Task.toDecide : Task → Option Lease
  | .decideRenewal r _ => some r.lease
  | _ => none

/-- The lease that an update takes to the store. -/
def Task.toUpdate : Task → Option Lease
  | .update _ lease => some lease
  | _ => none

def Task.answered : Task → Option Lease
  | .renewed r _ => some r.lease
  | _ => none

/-- The lease under the key has not expired when its renewal is decided on. -/
def Task.InTime (key : LeaseKey) (leaseDuration : NanosecondDuration)
    (now : NanosecondPoint) (task : Task) : Prop :=
  ∀ lease ∈ task.toDecide, lease.leaseKey = key →
    lease.isExpired leaseDuration now = false

/-- A step of the worker's own rounds of `renewLeases` and calls of
`updateLease`, whose requests the store serves; the lease under the key does not
expire, and nobody else changes the owner or the counter of its row. -/
def OwnStep (key : LeaseKey) (s : System) : Step → Prop
  | .call .renewLeases => True
  | .call (.updateLease _ _) => True
  | .call _ => False
  | .advance i input => input.fate = .served ∧
      ∀ task ∈ s.process.tasks[i]?,
        task.InTime key s.process.renewer.leaseDuration input.now
  | .elsewhere tbl => SameVersion key s.tbl tbl

/-- The task is no update of the row that the store accepts; and if it is the
answer to a renewal, it brings back a lease that agrees with the row, or another
task carries one. -/
def Task.Spares (manager : LeaseManager) (dynamo : Service) (key : LeaseKey)
    (tbl : Table) (others : List Task) (task : Task) : Prop :=
  (∀ lease ∈ task.toUpdate, lease.leaseKey = key →
      (LeaseCall.updateLease lease).writes manager dynamo tbl = false) ∧
    ∀ lease ∈ task.answered, lease.leaseKey = key →
      task.Carries key tbl ∨ ∃ other ∈ others, other.Carries key tbl

/-- The step carries no task further that does not spare the lease. -/
def Spares (manager : LeaseManager) (dynamo : Service) (key : LeaseKey)
    (s : System) : Step → Prop
  | .advance i _ => ∀ task ∈ s.process.tasks[i]?,
      task.Spares manager dynamo key s.tbl (s.process.tasks.eraseIdx i)
  | _ => True

/-- The tasks that there are while only renewals and updates are made. No update
of the lease under the key has been accepted. -/
def Task.Own (key : LeaseKey) : Task → Prop
  | .postedRenewLeases _ => True
  | .decideRenewal _ _ => True
  | .renewal _ => True
  | .renewed r outcome => ∀ result, outcome = .ok result →
      result.lease.leaseKey = r.lease.leaseKey
  | .update _ _ => True
  | .updated _ outcome => ∀ result, outcome = .ok result →
      result.lease.leaseKey ≠ key
  | _ => False

/-- The lease under the key is held and agrees with the row, or a renewal carries
a lease that does. -/
structure Retained (key : LeaseKey) (s : System) : Prop where
  own : ∀ task ∈ s.process.tasks, task.Own key
  current : (∃ held, s.process.ownedLeases.get key = some held ∧
      AgreesWith s.tbl held) ∨
    ∃ task ∈ s.process.tasks, task.Carries key s.tbl

theorem carries_iff_of_sameVersion {key : LeaseKey} {tbl tbl' : Table}
    (h : SameVersion key tbl tbl') (task : Task) :
    task.Carries key tbl' ↔ task.Carries key tbl := by
  unfold Task.Carries
  simp only [h.isCurrent_iff]

theorem not_carries {key : LeaseKey} {tbl : Table} {task : Task}
    (h : task.carried = none) : ¬ task.Carries key tbl := by
  rintro ⟨lease, hlease, -⟩
  rw [h] at hlease
  cases hlease

/-- A task is replaced by others while what is held under the key and the version
of its row stay: the lease is still there if what the task carries is passed
on. -/
theorem Retained.replace {key : LeaseKey} {s s' : System} {i : ℕ} {task : Task}
    {new : List Task} (h : Retained key s) (htask : s.process.tasks[i]? = some task)
    (htasks : s'.process.tasks = s.process.tasks.eraseIdx i ++ new)
    (hheld : s'.process.ownedLeases.get key = s.process.ownedLeases.get key)
    (hversion : SameVersion key s.tbl s'.tbl) (hnew : ∀ t ∈ new, t.Own key)
    (hpasses : task.Carries key s.tbl → ∃ t ∈ new, t.Carries key s.tbl) :
    Retained key s' where
  own := by
    intro t ht
    rw [htasks, List.mem_append] at ht
    rcases ht with ht | ht
    · exact h.own t (List.mem_of_mem_eraseIdx ht)
    · exact hnew t ht
  current := by
    rw [hheld, htasks]
    rcases h.current with ⟨held, hget, hagrees⟩ | ⟨t, ht, hcarries⟩
    · have hkey := LeaseMap.leaseKey_of_get hget
      exact Or.inl ⟨held, hget,
        ((hversion.isCurrent_iff held).mpr ⟨hkey, hagrees⟩).2⟩
    · have hmem : ∃ t ∈ s.process.tasks.eraseIdx i ++ new,
          t.Carries key s.tbl := by
        rcases eq_or_ne t task with rfl | hne
        · obtain ⟨t', ht', hcarries'⟩ := hpasses hcarries
          exact ⟨t', List.mem_append_right _ ht', hcarries'⟩
        · have hrest := TakenOut.mem_eraseIdx_of_ne htask ht hne
          exact ⟨t, List.mem_append_left _ hrest, hcarries⟩
      obtain ⟨t', ht', hcarries'⟩ := hmem
      exact Or.inr ⟨t', ht',
        (carries_iff_of_sameVersion hversion t').mpr hcarries'⟩

/-- What the callbacks of own tasks add to the tasks. -/
def spawnedBy (input : Input) (p : LeaseProcess) : Task → List Task
  | .postedRenewLeases call => p.ownedLeases.toList.map fun lease =>
      .decideRenewal ⟨lease, p.time, .inRenewLeases call⟩ {}
  | .decideRenewal r options =>
      if p.renewer.shouldRenew options input.now r.lease then [.renewal r] else []
  | _ => []

theorem tasks_addLeasesToRenew (p : LeaseProcess) (leases : List Lease) :
    (p.addLeasesToRenew leases).tasks = p.tasks := by
  unfold addLeasesToRenew
  induction leases generalizing p with
  | nil => rfl
  | cons lease leases ih =>
      rw [List.foldl_cons, ih]
      unfold acquire
      cases lease.lastCounterIncrementNanoseconds <;> rfl

theorem tasks_onRenewalOver (p : LeaseProcess) (r : Renewal)
    (outcome : RenewLeaseOutcome) : (p.onRenewalOver r outcome).tasks = p.tasks := by
  obtain ⟨lease, issued, caller⟩ := r
  cases caller with
  | user => rfl
  | inInitialize call =>
      change ((p.insertRenewed outcome).onInitializeRenewal call).tasks = p.tasks
      obtain ⟨renewer, hinsert⟩ := p.exists_insertRenewed_eq outcome
      rw [hinsert]
      unfold onInitializeRenewal
      dsimp only
      split_ifs
      · exact tasks_addLeasesToRenew ((p.withRenewer renewer).finishOne call) _
      · rfl
  | inRenewLeases call =>
      unfold onRenewalOver
      dsimp only
      split_ifs <;> rfl

theorem tasks_handle {key : LeaseKey} {input : Input} {p p' : LeaseProcess}
    {task : Task} (hown : task.Own key) (hp' : p.handle input task = some p') :
    p'.tasks = p.tasks ++ p.spawnedBy input task := by
  cases task with
  | postedRenewLeases call =>
      cases hp'
      rfl
  | decideRenewal r options =>
      cases hp'
      unfold onDecideRenewal spawnedBy
      by_cases hrenew : p.renewer.shouldRenew options input.now r.lease = true
      · simp only [hrenew, if_true]
        rfl
      · simp only [hrenew, Bool.false_eq_true, if_false, List.append_nil]
        exact tasks_onRenewalOver _ r _
  | renewed r outcome =>
      cases hp'
      change ((p.withRenewer _).onRenewalOver r outcome).tasks = p.tasks ++ []
      rw [List.append_nil, tasks_onRenewalOver]
      rfl
  | updated call outcome =>
      cases hp'
      change p.tasks = p.tasks ++ []
      rw [List.append_nil]
  | renewal r => cases hp'
  | update call lease => cases hp'
  | _ => cases hown

theorem row_renewLease_of_ne (manager : LeaseManager) (dynamo : Service)
    {lease : Lease} {key : LeaseKey} (hne : lease.leaseKey ≠ key) (tbl : Table) :
    (manager.renewLease dynamo lease tbl).1.row key.value = tbl.row key.value :=
  LeaseCall.perform_row_of_ne manager dynamo (.renewLease lease) tbl
    fun h => hne (StringProxy.ext h)

theorem row_updateLease_of_ne (manager : LeaseManager) (dynamo : Service)
    {lease : Lease} {key : LeaseKey} (hne : lease.leaseKey ≠ key) (tbl : Table) :
    (LeaseManager.updateLease dynamo lease tbl).1.row key.value =
      tbl.row key.value :=
  LeaseCall.perform_row_of_ne manager dynamo (.updateLease lease) tbl
    fun h => hne (StringProxy.ext h)

theorem retained_renewal {manager : LeaseManager} {dynamo : Service}
    {key : LeaseKey} {s s' : System} {i : ℕ} {r : Renewal}
    (hreach : dynamo.reaches (some manager.tableName) = true)
    (h : Retained key s) (htask : s.process.tasks[i]? = some (.renewal r))
    (htasks : s'.process.tasks = s.process.tasks.eraseIdx i ++
      [.renewed r (manager.renewLease dynamo r.lease s.tbl).2])
    (hheld : s'.process.ownedLeases.get key = s.process.ownedLeases.get key)
    (htbl : s'.tbl = (manager.renewLease dynamo r.lease s.tbl).1) :
    Retained key s' := by
  have hnew : (Task.renewed r (manager.renewLease dynamo r.lease s.tbl).2).Own
      key := by
    intro result hresult
    rcases renewLease_cases manager dynamo r.lease s.tbl with
      ⟨tbl', heq, -⟩ | ⟨e, heq, -⟩
    · rw [heq] at hresult
      cases hresult
      exact Lease.leaseKey_copySharedWithIncrementedCounter r.lease
    · rw [heq] at hresult
      cases hresult
  have hall : ∀ t ∈ [Task.renewed r (manager.renewLease dynamo r.lease s.tbl).2],
      t.Own key := by
    intro t ht
    rw [List.mem_singleton.mp ht]
    exact hnew
  by_cases hkey : r.lease.leaseKey = key
  · rcases renewLease_cases manager dynamo r.lease s.tbl with
      ⟨tbl', heq, hagrees⟩ | ⟨e, heq, hrefused⟩
    · have hcarries :
          (Task.renewed r (manager.renewLease dynamo r.lease s.tbl).2).Carries key
            s'.tbl := by
        rw [htbl, heq]
        refine ⟨r.lease.copySharedWithIncrementedCounter, rfl, ?_, hagrees⟩
        rw [Lease.leaseKey_copySharedWithIncrementedCounter, hkey]
      refine ⟨fun t ht => ?_, Or.inr ⟨_, ?_, hcarries⟩⟩
      · rw [htasks, List.mem_append] at ht
        exact ht.elim (fun ht => h.own t (List.mem_of_mem_eraseIdx ht)) (hall t)
      · rw [htasks]
        exact List.mem_append_right _ (List.mem_singleton.mpr rfl)
    · refine h.replace htask htasks hheld ?_ hall fun hcarries => ?_
      · rw [htbl, heq]
        exact SameVersion.refl key s.tbl
      · obtain ⟨lease, hlease, -, hagrees⟩ := hcarries
        cases hlease
        exact absurd hagrees (hrefused hreach)
  · refine h.replace htask htasks hheld ?_ hall fun hcarries => ?_
    · rw [htbl]
      exact SameVersion.of_row (row_renewLease_of_ne manager dynamo hkey s.tbl)
    · obtain ⟨lease, hlease, hkey', -⟩ := hcarries
      cases hlease
      exact absurd hkey' hkey

theorem retained_update {manager : LeaseManager} {dynamo : Service}
    {key : LeaseKey} {s s' : System} {i call : ℕ} {lease : Lease}
    (h : Retained key s) (htask : s.process.tasks[i]? = some (.update call lease))
    (hspares : lease.leaseKey = key →
      (LeaseCall.updateLease lease).writes manager dynamo s.tbl = false)
    (htasks : s'.process.tasks = s.process.tasks.eraseIdx i ++
      [.updated call (LeaseManager.updateLease dynamo lease s.tbl).2])
    (hheld : s'.process.ownedLeases.get key = s.process.ownedLeases.get key)
    (htbl : s'.tbl = (LeaseManager.updateLease dynamo lease s.tbl).1) :
    Retained key s' := by
  refine h.replace htask htasks hheld ?_ (fun t ht => ?_) (not_carries rfl).elim
  · rw [htbl]
    by_cases hkey : lease.leaseKey = key
    · rcases updateLease_cases manager dynamo lease s.tbl with
        ⟨tbl', -, hwrites⟩ | ⟨e, heq⟩
      · rw [hspares hkey] at hwrites
        cases hwrites
      · rw [heq]
        exact SameVersion.refl key s.tbl
    · exact SameVersion.of_row (row_updateLease_of_ne manager dynamo hkey s.tbl)
  · rw [List.mem_singleton.mp ht]
    intro result hresult hkey
    rcases updateLease_cases manager dynamo lease s.tbl with
      ⟨tbl', heq, hwrites⟩ | ⟨e, heq⟩
    · rw [heq] at hresult
      cases hresult
      rw [hspares hkey] at hwrites
      cases hwrites
    · rw [heq] at hresult
      cases hresult

theorem retained_decideRenewal {key : LeaseKey} {input : Input} {s : System}
    {p' : LeaseProcess} {i : ℕ} {r : Renewal} {options : RenewLeaseOptions}
    (h : Retained key s)
    (htask : s.process.tasks[i]? = some (.decideRenewal r options))
    (hintime : r.lease.leaseKey = key →
      r.lease.isExpired s.process.renewer.leaseDuration input.now = false)
    (htasks : p'.tasks = s.process.tasks.eraseIdx i ++
      s.process.spawnedBy input (.decideRenewal r options))
    (hget : p'.ownedLeases.get key =
      s.process.heldAfter input (.decideRenewal r options) key) :
    Retained key ⟨p', s.tbl⟩ := by
  simp only [spawnedBy, heldAfter] at htasks hget
  cases hrenew : s.process.renewer.shouldRenew options input.now r.lease with
  | true =>
      simp only [hrenew, if_true, Bool.true_eq_false, false_and, if_false]
        at htasks hget
      refine h.replace htask htasks hget (SameVersion.refl key s.tbl)
        (fun t ht => ?_) fun hcarries => ?_
      · rw [List.mem_singleton.mp ht]
        trivial
      · exact ⟨.renewal r, List.mem_singleton.mpr rfl, hcarries⟩
  | false =>
      have hne : r.lease.leaseKey ≠ key := by
        intro hkey
        simp [LeaseRenewer.shouldRenew, hintime hkey] at hrenew
      simp only [hrenew, Bool.false_eq_true, if_false, hne, and_false]
        at htasks hget
      refine h.replace htask htasks hget (SameVersion.refl key s.tbl)
        (List.forall_mem_nil _) ?_
      rintro ⟨lease, hlease, hkey, -⟩
      cases hlease
      exact absurd hkey hne

theorem retained_renewed {key : LeaseKey} {input : Input} {s : System}
    {p' : LeaseProcess} {i : ℕ} {r : Renewal} {outcome : RenewLeaseOutcome}
    (h : Retained key s) (htask : s.process.tasks[i]? = some (.renewed r outcome))
    (hspares : r.lease.leaseKey = key →
      (Task.renewed r outcome).Carries key s.tbl ∨
        ∃ task ∈ s.process.tasks.eraseIdx i, task.Carries key s.tbl)
    (htasks : p'.tasks = s.process.tasks.eraseIdx i)
    (hget : p'.ownedLeases.get key =
      s.process.heldAfter input (.renewed r outcome) key) :
    Retained key ⟨p', s.tbl⟩ := by
  have hown := h.own _ (List.mem_of_getElem? htask)
  by_cases hkey : r.lease.leaseKey = key
  · refine ⟨fun t ht => h.own t ?_, ?_⟩
    · rw [htasks] at ht
      exact List.mem_of_mem_eraseIdx ht
    rcases hspares hkey with ⟨lease, hlease, hkey', hagrees⟩ |
      ⟨other, hother, hcarries⟩
    · cases outcome with
      | error e => cases hlease
      | ok result =>
          cases hlease
          rw [heldAfter, if_pos hkey'] at hget
          exact Or.inl ⟨_, hget, hagrees⟩
    · exact Or.inr ⟨other, htasks ▸ hother, hcarries⟩
  · have hkeeps : s.process.heldAfter input (.renewed r outcome) key =
        s.process.ownedLeases.get key := by
      cases outcome with
      | error e => rw [heldAfter, if_neg hkey]
      | ok result =>
          rw [heldAfter, if_neg fun hkey' => hkey ((hown result rfl).symm.trans hkey')]
    refine h.replace htask (htasks.trans (List.append_nil _).symm)
      (hget.trans hkeeps) (SameVersion.refl key s.tbl) (List.forall_mem_nil _) ?_
    rintro ⟨lease, hlease, hkey', -⟩
    cases outcome with
    | error e => cases hlease
    | ok result =>
        cases hlease
        exact absurd ((hown result rfl).symm.trans hkey') hkey

theorem retained_handle {manager : LeaseManager} {dynamo : Service}
    {key : LeaseKey} {input : Input} {s : System} {p' : LeaseProcess} {i : ℕ}
    {task : Task} (h : Retained key s) (htask : s.process.tasks[i]? = some task)
    (hintime : task.InTime key s.process.renewer.leaseDuration input.now)
    (hspares : task.Spares manager dynamo key s.tbl (s.process.tasks.eraseIdx i))
    (hp' : (s.process.without i).handle input task = some p') :
    Retained key ⟨p', s.tbl⟩ := by
  have hown := h.own task (List.mem_of_getElem? htask)
  have htasks := tasks_handle hown hp'
  have hget := get_handle hp' key
  cases task with
  | postedRenewLeases call =>
      refine h.replace htask htasks hget (SameVersion.refl key s.tbl)
        (fun t ht => ?_) (not_carries rfl).elim
      obtain ⟨lease, -, rfl⟩ := List.mem_map.mp ht
      trivial
  | decideRenewal r options =>
      exact retained_decideRenewal h htask (hintime r.lease rfl) htasks hget
  | renewed r outcome =>
      exact retained_renewed h htask (hspares.2 r.lease rfl)
        (htasks.trans (List.append_nil _)) hget
  | updated call outcome =>
      refine h.replace htask htasks (hget.trans ?_) (SameVersion.refl key s.tbl)
        (List.forall_mem_nil _) (not_carries rfl).elim
      cases outcome with
      | error e => rfl
      | ok result => exact if_neg fun hand => hown result rfl hand.2
  | renewal r => cases hp'
  | update call lease => cases hp'
  | _ => cases hown

theorem retained_advance {manager : LeaseManager} {dynamo : Service}
    {key : LeaseKey} {input : Input} {s : System} {i : ℕ} {task : Task}
    {next : LeaseProcess × Table}
    (hreach : dynamo.reaches (some manager.tableName) = true)
    (h : Retained key s) (htask : s.process.tasks[i]? = some task)
    (hserved : input.fate = .served)
    (hintime : task.InTime key s.process.renewer.leaseDuration input.now)
    (hspares : task.Spares manager dynamo key s.tbl (s.process.tasks.eraseIdx i))
    (hnext : s.process.advance manager dynamo input i task s.tbl = some next) :
    Retained key ⟨next.1, next.2⟩ := by
  have hown := h.own task (List.mem_of_getElem? htask)
  rcases advance_eq_some hnext with ⟨answer, tbl', hrequest, hserve, rfl⟩ |
    ⟨p', -, hp', rfl⟩
  · cases task with
    | renewal r =>
        rw [serveRequest, hserved] at hserve
        cases hserve
        exact retained_renewal hreach h htask rfl rfl rfl
    | update call lease =>
        rw [serveRequest, hserved] at hserve
        cases hserve
        exact retained_update h htask (hspares.1 lease rfl) rfl rfl rfl
    | listForInitialize call => cases hown
    | listForTaker call => cases hown
    | take call lease => cases hown
    | _ => cases hrequest
  · exact retained_handle h htask hintime hspares hp'

theorem retained_call (dchecks : Bool) {key : LeaseKey} {s : System} {call : Call}
    (h : Retained key s) (hown : OwnStep key s (.call call)) :
    Retained key ⟨s.process.call dchecks call, s.tbl⟩ := by
  have hspawn : ∀ task : Task, task.Own key →
      Retained key ⟨s.process.spawn [task], s.tbl⟩ := by
    intro task htask
    refine ⟨fun t ht => ?_, h.current.imp_right ?_⟩
    · rcases List.mem_append.mp ht with ht | ht
      · exact h.own t ht
      · rw [List.mem_singleton.mp ht]
        exact htask
    · rintro ⟨t, ht, hcarries⟩
      exact ⟨t, List.mem_append_left _ ht, hcarries⟩
  cases call with
  | renewLeases => exact hspawn (.postedRenewLeases s.process.time) trivial
  | updateLease lease token =>
      change Retained key ⟨s.process.updateLease dchecks lease token, s.tbl⟩
      unfold updateLease
      cases s.process.renewer.startUpdate dchecks lease token with
      | dies => exact ⟨h.own, h.current⟩
      | refused => exact ⟨h.own, h.current⟩
      | requests => exact hspawn (.update s.process.time lease) trivial
  | _ => cases hown

theorem retained_step {manager : LeaseManager} {dynamo : Service}
    {dchecks : Bool} {key : LeaseKey} {s s' : System} {step : Step}
    (hreach : dynamo.reaches (some manager.tableName) = true)
    (h : Retained key s) (hown : OwnStep key s step)
    (hspares : Spares manager dynamo key s step)
    (hstep : s.step manager dynamo dchecks step = some s') : Retained key s' := by
  rcases step_eq_some hstep with ⟨call, rfl, -, htbl, hs'⟩ |
    ⟨i, input, task, next, rfl, htask, hnext, htbl, hs'⟩ | ⟨tbl, rfl, htbl, hs'⟩
  · obtain ⟨process, tbl⟩ := s'
    cases htbl
    cases hs'
    have hcall := retained_call dchecks h hown
    exact ⟨hcall.own, hcall.current⟩
  · obtain ⟨process, tbl⟩ := s'
    cases htbl
    cases hs'
    have hadvance := retained_advance hreach h htask hown.1 (hown.2 task htask)
      (hspares task htask) hnext
    exact ⟨hadvance.own, hadvance.current⟩
  · obtain ⟨process, tbl'⟩ := s'
    cases htbl
    cases hs'
    refine ⟨h.own, ?_⟩
    rcases h.current with ⟨held, hget, hagrees⟩ | ⟨t, ht, hcarries⟩
    · have hkey := LeaseMap.leaseKey_of_get hget
      exact Or.inl ⟨held, hget, ((hown.isCurrent_iff held).mpr ⟨hkey, hagrees⟩).2⟩
    · exact Or.inr ⟨t, ht, (carries_iff_of_sameVersion hown t).mpr hcarries⟩

/-- In a run of the worker's own calls in which no update of the row is accepted,
and an answer to a renewal that does not bring back a lease agreeing with the row
is handled only while another task carries one, the lease is held and agrees with
the row whenever all calls are over. -/
theorem retained_throughout (manager : LeaseManager) (dynamo : Service)
    (dchecks : Bool) {key : LeaseKey} {s : System} {lease : Lease}
    {steps : List Step}
    (hreach : dynamo.reaches (some manager.tableName) = true)
    (htasks : s.process.tasks = [])
    (hheld : s.process.ownedLeases.get key = some lease)
    (hagrees : AgreesWith s.tbl lease)
    (hown : Meets (System.step manager dynamo dchecks) (OwnStep key) s steps)
    (hspares : Meets (System.step manager dynamo dchecks)
      (Spares manager dynamo key) s steps) :
    Throughout (System.step manager dynamo dchecks)
      (fun s' => s'.process.tasks = [] →
        ∃ held, s'.process.ownedLeases.get key = some held ∧
          attributeOf (s'.tbl.row key.value) "leaseOwner" =
            Lease.stringAttribute held.leaseOwner ∧
          attributeOf (s'.tbl.row key.value) "leaseCounter" =
            counterAttribute held.leaseCounter) s steps := by
  have hstart : Retained key s :=
    ⟨by simp [htasks], Or.inl ⟨lease, hheld, hagrees⟩⟩
  have hretained := Transition.throughout_of_meets (I := Retained key)
    (fun s step s' h hok hstep => retained_step hreach h hok.1 hok.2 hstep)
    hstart ((Transition.meets_and _ _ _ _ _).mpr ⟨hown, hspares⟩)
  intro before after s' heq hs' hdone
  obtain ⟨-, ⟨held, hget, hagrees'⟩ | ⟨task, htask, -⟩⟩ :=
    hretained before after s' heq hs'
  · refine ⟨held, hget, ?_⟩
    rw [agreesWith_iff, LeaseMap.leaseKey_of_get hget] at hagrees'
    exact hagrees'
  · rw [hdone] at htask
    cases htask

instance (tbl : Table) (lease : Lease) : Decidable (AgreesWith tbl lease) :=
  inferInstanceAs (Decidable (_ = _))

instance (key : LeaseKey) (tbl : Table) (task : Task) :
    Decidable (task.Carries key tbl) :=
  inferInstanceAs (Decidable (∃ lease ∈ task.carried,
    lease.leaseKey = key ∧ AgreesWith tbl lease))

instance (key : LeaseKey) (leaseDuration : NanosecondDuration)
    (now : NanosecondPoint) (task : Task) :
    Decidable (task.InTime key leaseDuration now) :=
  inferInstanceAs (Decidable (∀ lease ∈ task.toDecide, _ → _ = _))

instance (manager : LeaseManager) (dynamo : Service) (key : LeaseKey)
    (tbl : Table) (others : List Task) (task : Task) :
    Decidable (task.Spares manager dynamo key tbl others) :=
  inferInstanceAs (Decidable ((∀ lease ∈ task.toUpdate, _ → _ = _) ∧
    ∀ lease ∈ task.answered, _ → _ ∨ ∃ other ∈ others, _))

instance (key : LeaseKey) (s : System) : DecidablePred (OwnStep key s)
  | .call .renewLeases => isTrue trivial
  | .call (.updateLease _ _) => isTrue trivial
  | .call (.addLeasesToRenew _) | .call .clearHeldLeases | .call (.dropLease _)
  | .call (.renewLease _ _) | .call .initializeRenewer | .call .takeLeases =>
      isFalse id
  | .advance i input => inferInstanceAs (Decidable (input.fate = .served ∧
      ∀ task ∈ s.process.tasks[i]?,
        task.InTime key s.process.renewer.leaseDuration input.now))
  | .elsewhere tbl => inferInstanceAs (Decidable
      (attributeOf (tbl.row key.value) "leaseOwner" =
          attributeOf (s.tbl.row key.value) "leaseOwner" ∧
        attributeOf (tbl.row key.value) "leaseCounter" =
          attributeOf (s.tbl.row key.value) "leaseCounter"))

instance (manager : LeaseManager) (dynamo : Service) (key : LeaseKey)
    (s : System) : DecidablePred (Spares manager dynamo key s)
  | .advance i _ => inferInstanceAs (Decidable (∀ task ∈ s.process.tasks[i]?,
      task.Spares manager dynamo key s.tbl (s.process.tasks.eraseIdx i)))
  | .call _ | .elsewhere _ => isTrue trivial

def sampleHolding : System where
  process := sampleStart.process.withRenewer
    { sampleStart.process.renewer with ownedLeases := LeaseMap.empty.insert sampleHeld }
  tbl := sampleTable

/-- Two rounds of renewals overlap. The second one is refused, and its answer is
handled first. -/
def sampleRounds : List Step :=
  [.call .renewLeases, .call .renewLeases] ++
    List.replicate 6 (.advance 0 sampleInput) ++
    [.advance 1 sampleInput, .advance 0 sampleInput]

theorem retained_throughout_sampleRounds :
    (∃ s ∈ run (System.step sampleManager sampleDynamo true) sampleHolding
        sampleRounds, s.process.tasks = []) ∧
      Throughout (System.step sampleManager sampleDynamo true)
        (fun s => s.process.tasks = [] →
          ∃ held, s.process.ownedLeases.get sampleHeld.leaseKey = some held ∧
            attributeOf (s.tbl.row sampleHeld.leaseKey.value) "leaseOwner" =
              Lease.stringAttribute held.leaseOwner ∧
            attributeOf (s.tbl.row sampleHeld.leaseKey.value) "leaseCounter" =
              counterAttribute held.leaseCounter) sampleHolding sampleRounds :=
  ⟨by decide +kernel,
    @retained_throughout sampleManager sampleDynamo true sampleHeld.leaseKey
      sampleHolding sampleHeld sampleRounds (by decide) rfl (by decide +kernel)
      (by decide +kernel) (by decide +kernel) (by decide +kernel)⟩

/-- A checkpoint is written, and the lease is renewed in the next round. -/
def sampleCheckpoint : List Step :=
  [.call (.updateLease (sampleUnder ⟨"token-1"⟩) ⟨"token-1"⟩)] ++
    List.replicate 2 (.advance 0 sampleInput) ++ [.call .renewLeases] ++
    List.replicate 4 (.advance 0 sampleInput)

/-- Nobody else is around. The update leaves the lease with the counter it had, so
the renewal is refused and the lease is dropped. -/
theorem updateLease_loses :
    sampleHolding.process.tasks = [] ∧
      sampleHolding.process.ownedLeases.get sampleHeld.leaseKey =
        some sampleHeld ∧
      AgreesWith sampleHolding.tbl sampleHeld ∧
      Meets (System.step sampleManager sampleDynamo true)
        (OwnStep sampleHeld.leaseKey) sampleHolding sampleCheckpoint ∧
      ∃ s ∈ run (System.step sampleManager sampleDynamo true) sampleHolding
        sampleCheckpoint, s.process.tasks = [] ∧
          s.process.ownedLeases.get sampleHeld.leaseKey = none := by
  decide +kernel

end LeaseProcess

end Leases

end Kclpp
