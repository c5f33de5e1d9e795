import Kclpp.Leases.LeaseCoordinator.Workers
import Kclpp.Leases.LeaseRenewer.Rounds

/-!
# Holding only one's own leases

`Owns w worker` says that everything a worker holds, or is about to renew, names
the worker. Two callbacks can break it: the one of `initialize`, which renews
whatever the listing has, whoever owns it, and the end of a round of takes,
which passes on objects that still name the owner before the take. Where these
two meet `permitted`, every step of every worker keeps `Owns`, and no step of an
initialization writes a row of another worker.
-/

open OrderedMap

namespace Kclpp

namespace Leases

open Clock Dynamo Lease

open Transition (run Meets)

def NamesOnly (w : LeaseOwner) (m : LeaseMap) : Prop :=
  ∀ key lease, m.get key = some lease → lease.leaseOwner = some w

/-- A task renews only a lease that names this owner. -/
def Task.Names (w : LeaseOwner) : Task → Prop
  | .decideRenewal lease _ _ => lease.leaseOwner = some w
  | .renewal lease _ => lease.leaseOwner = some w
  | .renewed _ outcome _ =>
      ∀ result, outcome = .ok result → result.lease.leaseOwner = some w
  | _ => True

def Task.ofInitialize : Task → Bool
  | .postedInitialize => true
  | .listForInitialize => true
  | .listedForInitialize _ => true
  | .decideRenewal _ _ (.inInitialize _) => true
  | .renewal _ (.inInitialize _) => true
  | .renewed _ _ (.inInitialize _) => true
  | _ => false

/-- Everything a worker holds or is about to renew names it. -/
structure Owns (w : LeaseOwner) (worker : Worker) : Prop where
  held : NamesOnly w worker.ownedLeases
  tasks : ∀ task ∈ worker.tasks, task.Names w

/-- A lease that `addLeasesToRenew` may be given: it names the worker, or it is
passed over because it has no increment time or because one is held already. -/
def mayBeAdded (w : LeaseOwner) (m : LeaseMap) (lease : Lease) : Bool :=
  lease.leaseOwner = some w ||
    lease.lastCounterIncrementNanoseconds.isNone ||
    (m.get lease.leaseKey).isSome

/-- The step is not one of the two that go wrong: an initialization that is
answered with somebody else's lease, or a round of takes that ends with a lease
object that names somebody else and would be added. -/
def permitted (s : WorkerSystem) (label : LeaseOwner × WorkerStep) : Bool :=
  let worker := s.workers label.1
  match label.2 with
  | .advance i _ =>
      match worker.tasks[i]? with
      | some (.listedForInitialize (.ok leases)) =>
          leases.all fun lease => lease.leaseOwner = some label.1
      | some (.taken outcome n) =>
          !(worker.finishOne n).1 || !worker.coordinator.running ||
            (worker.takenWith n outcome).all
              (mayBeAdded label.1 worker.ownedLeases)
      | _ => true
  | _ => true

theorem NamesOnly.insertOrUpdate {w : LeaseOwner} {m : LeaseMap}
    (h : NamesOnly w m) {lease : Lease} (hlease : lease.leaseOwner = some w) :
    NamesOnly w (m.insertOrUpdate lease) := by
  intro key found hfound
  rw [LeaseMap.get_insertOrUpdate] at hfound
  split_ifs at hfound
  · cases hfound
    exact hlease
  · exact h key found hfound

theorem NamesOnly.erase {w : LeaseOwner} {m : LeaseMap} (h : NamesOnly w m)
    (key : LeaseKey) : NamesOnly w (m.erase key) := by
  intro k found hfound
  rw [LeaseMap.get_erase] at hfound
  split_ifs at hfound
  exact h k found hfound

theorem NamesOnly.addLeaseToRenew {w : LeaseOwner} {m : LeaseMap}
    (h : NamesOnly w m) {lease : Lease} (hlease : mayBeAdded w m lease = true) :
    NamesOnly w (LeaseRenewer.addLeaseToRenew m lease) := by
  unfold LeaseRenewer.addLeaseToRenew
  cases hlast : lease.lastCounterIncrementNanoseconds with
  | none => exact h
  | some last =>
      intro key found hfound
      rw [LeaseMap.get_insert] at hfound
      split_ifs at hfound with hkey
      · cases hget : m.get key with
        | some held =>
            rw [hget] at hfound
            cases hfound
            exact h key held hget
        | none =>
            rw [hget] at hfound
            cases hfound
            have hkey' : lease.leaseKey = key := hkey
            have howner : lease.leaseOwner = some w := by
              simpa [mayBeAdded, hlast, hkey', hget] using hlease
            exact howner
      · exact h key found hfound

theorem isSome_get_addLeaseToRenew {m : LeaseMap} {key : LeaseKey}
    (h : (m.get key).isSome = true) (lease : Lease) :
    ((LeaseRenewer.addLeaseToRenew m lease).get key).isSome = true := by
  unfold LeaseRenewer.addLeaseToRenew
  cases lease.lastCounterIncrementNanoseconds with
  | none => exact h
  | some last =>
      rw [LeaseMap.get_insert]
      split_ifs
      · rfl
      · exact h

theorem NamesOnly.addLeasesToRenew {w : LeaseOwner} {renewer : LeaseRenewer}
    (h : NamesOnly w renewer.ownedLeases) {leases : List Lease}
    (hleases : ∀ lease ∈ leases,
      mayBeAdded w renewer.ownedLeases lease = true) :
    NamesOnly w (renewer.addLeasesToRenew leases).ownedLeases := by
  unfold LeaseRenewer.addLeasesToRenew
  dsimp only
  generalize renewer.ownedLeases = m at h hleases
  induction leases generalizing m with
  | nil => exact h
  | cons lease leases ih =>
      refine ih _ (h.addLeaseToRenew (hleases lease List.mem_cons_self)) ?_
      intro l hl
      have hadd := hleases l (List.mem_cons_of_mem _ hl)
      simp only [mayBeAdded, Bool.or_eq_true] at hadd ⊢
      exact hadd.imp_right fun hheld => isSome_get_addLeaseToRenew hheld lease

namespace Owns

theorem withRenewer {w : LeaseOwner} {worker : Worker} (h : Owns w worker)
    {renewer : LeaseRenewer} (hrenewer : NamesOnly w renewer.ownedLeases) :
    Owns w (worker.withRenewer renewer) :=
  ⟨hrenewer, h.tasks⟩

theorem spawn {w : LeaseOwner} {worker : Worker} (h : Owns w worker)
    {tasks : List Task} (htasks : ∀ task ∈ tasks, task.Names w) :
    Owns w (worker.spawn tasks) := by
  refine ⟨h.held, ?_⟩
  intro task htask
  rcases List.mem_append.mp htask with htask | htask
  · exact h.tasks task htask
  · exact htasks task htask

theorem spawn_singleton {w : LeaseOwner} {worker : Worker} (h : Owns w worker)
    {task : Task} (htask : task.Names w) : Owns w (worker.spawn [task]) := by
  refine h.spawn ?_
  intro spawned hmem
  rw [List.mem_singleton.mp hmem]
  exact htask

theorem finishOne {w : LeaseOwner} {worker : Worker} (h : Owns w worker)
    (n : ℕ) : Owns w (worker.finishOne n).2 := by
  unfold Worker.finishOne
  cases worker.fanOuts[n]? with
  | none => exact h
  | some fanOut => exact ⟨h.held, h.tasks⟩

theorem postRenewals {w : LeaseOwner} {worker : Worker} (h : Owns w worker)
    {leases : List Lease}
    (hleases : ∀ lease ∈ leases, lease.leaseOwner = some w)
    (options : RenewLeaseOptions) (caller : ℕ → Caller) :
    Owns w (worker.postRenewals leases options caller) := by
  have hstart : Owns w (worker.startFanOut leases.length) := ⟨h.held, h.tasks⟩
  refine hstart.spawn ?_
  intro task htask
  obtain ⟨lease, hlease, rfl⟩ := List.mem_map.mp htask
  exact hleases lease hlease

theorem onListedForInitialize {w : LeaseOwner} {worker : Worker}
    (h : Owns w worker) {outcome : Except DynamoDBErrors (List Lease)}
    (hleases : ∀ leases, outcome = .ok leases →
      ∀ lease ∈ leases, lease.leaseOwner = some w) :
    Owns w (worker.onListedForInitialize outcome) := by
  cases outcome with
  | error e => exact ⟨h.held, h.tasks⟩
  | ok leases =>
      unfold Worker.onListedForInitialize
      dsimp only
      split_ifs
      · exact ⟨h.held, h.tasks⟩
      · exact h.postRenewals (hleases leases rfl) _ _

theorem onRenewLeases {w : LeaseOwner} {worker : Worker} (h : Owns w worker) :
    Owns w worker.onRenewLeases := by
  refine h.postRenewals ?_ _ _
  intro lease hlease
  exact h.held _ lease ((LeaseMap.mem_toList_iff _ lease).mp hlease)

theorem insertRenewed {w : LeaseOwner} {worker : Worker} (h : Owns w worker)
    {outcome : RenewLeaseOutcome}
    (houtcome : ∀ result, outcome = .ok result → result.renewed = true →
      result.lease.leaseOwner = some w) :
    Owns w (worker.insertRenewed outcome) := by
  unfold Worker.insertRenewed
  cases outcome with
  | error e => exact h
  | ok result =>
      dsimp only
      split_ifs with hrenewed
      · exact h.withRenewer
          (h.held.insertOrUpdate (houtcome result rfl hrenewed))
      · exact h

theorem onRenewalOver {w : LeaseOwner} {worker : Worker} (h : Owns w worker)
    {outcome : RenewLeaseOutcome}
    (houtcome : ∀ result, outcome = .ok result → result.renewed = true →
      result.lease.leaseOwner = some w) (caller : Caller) :
    Owns w (worker.onRenewalOver outcome caller) := by
  unfold Worker.onRenewalOver
  cases caller with
  | inRenewLeases n =>
      have hfinish := h.finishOne n
      dsimp only
      cases hn : worker.finishOne n with
      | mk leader worker' =>
      rw [hn] at hfinish
      cases leader with
      | false => exact hfinish
      | true => exact ⟨hfinish.held, hfinish.tasks⟩
  | inInitialize n =>
      have hfinish := (h.insertRenewed houtcome).finishOne n
      dsimp only
      cases hn : (worker.insertRenewed outcome).finishOne n with
      | mk leader worker' =>
      rw [hn] at hfinish
      cases leader with
      | false => exact hfinish
      | true =>
          have hadd : NamesOnly w (worker'.coordinator.renewer.addLeasesToRenew
              worker'.ownedLeases.toList).ownedLeases := by
            refine hfinish.held.addLeasesToRenew ?_
            intro lease hlease
            have howner := hfinish.held _ lease
              ((LeaseMap.mem_toList_iff _ lease).mp hlease)
            simp [mayBeAdded, howner]
          exact ⟨hadd, hfinish.tasks⟩

theorem onDecideRenewal {w : LeaseOwner} {worker : Worker} (h : Owns w worker)
    {lease : Lease} (hlease : lease.leaseOwner = some w) (now : NanosecondPoint)
    (options : RenewLeaseOptions) (caller : Caller) :
    Owns w (worker.onDecideRenewal now lease options caller) := by
  unfold Worker.onDecideRenewal
  split_ifs
  · exact h.spawn_singleton hlease
  · refine onRenewalOver (h.withRenewer (h.held.erase _)) ?_ caller
    rintro result ⟨⟩ hrenewed
    exact hlease

theorem onRenewed {w : LeaseOwner} {worker : Worker} (h : Owns w worker)
    {outcome : RenewLeaseOutcome}
    (houtcome : ∀ result, outcome = .ok result →
      result.lease.leaseOwner = some w) (lease : Lease) (caller : Caller) :
    Owns w (worker.onRenewed lease outcome caller) := by
  refine onRenewalOver (h.withRenewer ?_) (fun result hok _ => houtcome result hok)
    caller
  cases outcome with
  | error e => exact h.held.erase _
  | ok result => exact h.held.insertOrUpdate (houtcome result rfl)

theorem onTakeLeases {w : LeaseOwner} {worker : Worker} (h : Owns w worker)
    {outcome : Except DynamoDBErrors (List Lease)}
    (hleases : ∀ leases, outcome = .ok leases →
      worker.coordinator.running = true → ∀ lease ∈ leases,
        mayBeAdded w worker.ownedLeases lease = true) :
    Owns w (worker.onTakeLeases outcome) := by
  cases outcome with
  | error e => exact ⟨h.held, h.tasks⟩
  | ok leases =>
      refine ⟨?_, h.tasks⟩
      show NamesOnly w (worker.coordinator.onTakeLeases leases).ownedLeases
      unfold LeaseCoordinator.onTakeLeases
      split_ifs with hrunning
      · exact h.held.addLeasesToRenew (hleases leases rfl hrunning)
      · exact h.held

theorem onListedForTaker {w : LeaseOwner} {worker : Worker} (h : Owns w worker)
    (now : NanosecondPoint) (shuffle : RandomShuffle)
    (outcome : Except DynamoDBErrors (List Lease)) :
    Owns w (worker.onListedForTaker now shuffle outcome) := by
  cases outcome with
  | error e => exact ⟨h.held, h.tasks⟩
  | ok updatedLeases =>
      unfold Worker.onListedForTaker
      dsimp only
      generalize worker.coordinator.taker.updateAllLeases now updatedLeases = taker
      have htaker : Owns w (worker.withTaker taker) := ⟨h.held, h.tasks⟩
      generalize taker.computeLeasesToTake shuffle taker.getExpiredLeases = leases
      split_ifs
      · refine htaker.onTakeLeases ?_
        rintro leases ⟨⟩ - lease hlease
        cases hlease
      · have hstart : Owns w ((worker.withTaker taker).startFanOut leases.length) :=
          ⟨h.held, h.tasks⟩
        refine hstart.spawn ?_
        intro task htask
        obtain ⟨lease, -, rfl⟩ := List.mem_map.mp htask
        trivial

theorem onTaken {w : LeaseOwner} {worker : Worker} (h : Owns w worker)
    {outcome : Except DynamoDBErrors TakeLeaseResult} {n : ℕ}
    (hleases : (worker.finishOne n).1 = true →
      worker.coordinator.running = true → ∀ lease ∈ worker.takenWith n outcome,
        mayBeAdded w worker.ownedLeases lease = true) :
    Owns w (worker.onTaken outcome n) := by
  have hkept : Owns w
      (worker.withTakenLeases n (worker.takenWith n outcome)) :=
    ⟨h.held, h.tasks⟩
  have hfinish := hkept.finishOne n
  have hleader := worker.finishOne_withTakenLeases_fst n
    (worker.takenWith n outcome)
  have hsame := Worker.coordinator_finishOne
    (worker.withTakenLeases n (worker.takenWith n outcome)) n
  unfold Worker.onTaken
  dsimp only
  cases hn : (worker.withTakenLeases n (worker.takenWith n outcome)).finishOne n with
  | mk leader worker' =>
  rw [hn] at hfinish hleader hsame
  cases leader with
  | false => exact hfinish
  | true =>
      refine hfinish.onTakeLeases ?_
      rintro leases ⟨⟩ hrunning
      have hcoordinator : worker'.coordinator = worker.coordinator := hsame
      rw [Worker.ownedLeases, hcoordinator]
      rw [hcoordinator] at hrunning
      exact hleases hleader.symm hrunning

end Owns

theorem renewLease_row_of_leaseOwner_ne {manager : LeaseManager}
    {dynamo : Service} {w : LeaseOwner} {lease : Lease}
    (hlease : lease.leaseOwner = some w) {tbl : Table} {key owner : String}
    (hrow : attributeOf (tbl.row key) "leaseOwner" = some (.s owner))
    (hne : owner ≠ w.value) :
    (manager.renewLease dynamo lease tbl).1.row key = tbl.row key := by
  have hfst : (manager.renewLease dynamo lease tbl).1 =
      ((LeaseCall.renewLease lease).perform manager dynamo tbl).1 := rfl
  rw [hfst, LeaseCall.perform_fst]
  split_ifs with hwrites
  · rw [Table.row_put]
    split_ifs with hkey
    · simp only [LeaseCall.writes, LeaseCall.isUpdate, if_true,
        Bool.and_eq_true] at hwrites
      have hmatch := ((expectationHolds_makeCASExpectation _ _).mp hwrites.2).1
      rw [hkey, hrow] at hmatch
      simp only [LeaseCall.lease, hlease, stringAttribute, Option.map_some,
        Option.some.injEq, AttributeValue.s.injEq] at hmatch
      exact absurd hmatch hne
    · rfl
  · rfl

theorem leaseOwner_of_renewLease {manager : LeaseManager} {dynamo : Service}
    {lease : Lease} {tbl : Table} {result : RenewLeaseResult}
    (h : (manager.renewLease dynamo lease tbl).2 = .ok result) :
    result.lease.leaseOwner = lease.leaseOwner := by
  obtain ⟨tbl', hok, -⟩ | ⟨e, herror, -⟩ :=
    manager.renewLease_cases dynamo lease tbl
  · rw [hok] at h
    cases h
    exact leaseOwner_copySharedWithIncrementedCounter lease
  · rw [herror] at h
    cases h

theorem serve_fst_row {α : Type} {fate : Fate}
    {operation : Table → Table × Except DynamoDBErrors α} {tbl : Table}
    {key : String} (h : (operation tbl).1.row key = tbl.row key) :
    (serve fate operation tbl).1.row key = tbl.row key := by
  cases fate with
  | served => exact h
  | refused e => rfl
  | lost e => exact h

theorem serve_eq_ok {α : Type} {fate : Fate}
    {operation : Table → Table × Except DynamoDBErrors α} {tbl : Table}
    {result : α} (h : (serve fate operation tbl).2 = .ok result) :
    (operation tbl).2 = .ok result := by
  cases fate with
  | served => exact h
  | refused e => cases h
  | lost e => cases h

namespace Owns

/-- A step of a task keeps `Owns`, and a step of an initialization writes no row
of another worker. -/
theorem advance {manager : LeaseManager} {dynamo : Service} {w : LeaseOwner}
    {worker worker' : Worker} {tbl tbl' : Table} {input : Input} {task : Task}
    (h : Owns w worker) (htask : task.Names w)
    (hlisted : ∀ leases, task = .listedForInitialize (.ok leases) →
      ∀ lease ∈ leases, lease.leaseOwner = some w)
    (htaken : ∀ outcome n, task = .taken outcome n →
      (worker.finishOne n).1 = true → worker.coordinator.running = true →
        ∀ lease ∈ worker.takenWith n outcome,
          mayBeAdded w worker.ownedLeases lease = true)
    (hadvance : worker.advance manager dynamo input tbl task =
      some (worker', tbl')) :
    Owns w worker' ∧ (task.ofInitialize = true → ∀ key owner,
      attributeOf (tbl.row key) "leaseOwner" = some (.s owner) →
      owner ≠ w.value → tbl'.row key = tbl.row key) := by
  unfold Worker.advance at hadvance
  cases task with
  | listForInitialize =>
      cases hadvance
      exact ⟨h.spawn_singleton trivial, fun _ key _ _ _ => serve_fst_row rfl⟩
  | listForTaker =>
      cases hadvance
      exact ⟨h.spawn_singleton trivial, fun hinit => by cases hinit⟩
  | renewal lease caller =>
      cases hadvance
      refine ⟨h.spawn_singleton ?_, fun _ key owner hrow hne =>
        serve_fst_row (renewLease_row_of_leaseOwner_ne htask hrow hne)⟩
      intro result hok
      exact (leaseOwner_of_renewLease (serve_eq_ok hok)).trans htask
  | take lease n =>
      cases hadvance
      exact ⟨h.spawn_singleton trivial, fun hinit => by cases hinit⟩
  | postedInitialize =>
      dsimp only at hadvance
      split_ifs at hadvance
      cases hadvance
      exact ⟨h.spawn_singleton trivial, fun _ _ _ _ _ => rfl⟩
  | listedForInitialize outcome =>
      dsimp only at hadvance
      split_ifs at hadvance
      cases hadvance
      refine ⟨h.onListedForInitialize ?_, fun _ _ _ _ _ => rfl⟩
      rintro leases rfl
      exact hlisted leases rfl
  | listedForTaker outcome =>
      dsimp only at hadvance
      split_ifs at hadvance
      cases hadvance
      exact ⟨h.onListedForTaker _ _ _, fun _ _ _ _ _ => rfl⟩
  | postedRenewLeases =>
      dsimp only at hadvance
      split_ifs at hadvance
      cases hadvance
      exact ⟨h.onRenewLeases, fun _ _ _ _ _ => rfl⟩
  | decideRenewal lease options caller =>
      dsimp only at hadvance
      split_ifs at hadvance
      cases hadvance
      exact ⟨h.onDecideRenewal htask _ _ _, fun _ _ _ _ _ => rfl⟩
  | renewed lease outcome caller =>
      dsimp only at hadvance
      split_ifs at hadvance
      cases hadvance
      exact ⟨h.onRenewed htask _ _, fun _ _ _ _ _ => rfl⟩
  | taken outcome n =>
      dsimp only at hadvance
      split_ifs at hadvance
      cases hadvance
      exact ⟨h.onTaken (htaken outcome n rfl), fun _ _ _ _ _ => rfl⟩

theorem step {manager : LeaseManager} {dynamo : Service} {s : WorkerSystem}
    {w : LeaseOwner} {worker' : Worker} {tbl' : Table} {l : WorkerStep}
    (h : Owns w (s.workers w)) (hpermitted : permitted s (w, l) = true)
    (hstep : (s.workers w).step manager dynamo s.tbl l =
      some (worker', tbl')) :
    Owns w worker' ∧ ∀ i input task, l = .advance i input →
      (s.workers w).tasks[i]? = some task → task.ofInitialize = true →
        ∀ key owner,
          attributeOf (s.tbl.row key) "leaseOwner" = some (.s owner) →
          owner ≠ w.value → tbl'.row key = s.tbl.row key := by
  unfold Worker.step at hstep
  cases l with
  | callInitialize =>
      dsimp only at hstep
      split_ifs at hstep
      cases hstep
      exact ⟨h.spawn_singleton trivial, fun _ _ _ hl => by cases hl⟩
  | callRunTaker =>
      dsimp only at hstep
      split_ifs at hstep
      cases hstep
      exact ⟨h.spawn_singleton trivial, fun _ _ _ hl => by cases hl⟩
  | callRenewLeases =>
      dsimp only at hstep
      split_ifs at hstep
      cases hstep
      exact ⟨h.spawn_singleton trivial, fun _ _ _ hl => by cases hl⟩
  | setRunning isCurrentlyRunning =>
      dsimp only at hstep
      split_ifs at hstep
      cases hstep
      exact ⟨⟨h.held, h.tasks⟩, fun _ _ _ hl => by cases hl⟩
  | advance i input =>
      obtain ⟨task, htask, hadvance⟩ := Option.bind_eq_some_iff.mp hstep
      have herased : Owns w
          { s.workers w with tasks := (s.workers w).tasks.eraseIdx i } :=
        ⟨h.held, fun t ht => h.tasks t (List.mem_of_mem_eraseIdx ht)⟩
      have hnames := h.tasks task (List.mem_of_getElem? htask)
      simp only [permitted, htask] at hpermitted
      obtain ⟨howns, hrows⟩ := herased.advance hnames
        (by
          rintro leases rfl lease hlease
          exact of_decide_eq_true (List.all_eq_true.mp hpermitted lease hlease))
        (by
          rintro outcome n rfl hleader hrunning lease hlease
          have hleader' : ((s.workers w).finishOne n).1 = true := by
            rw [← hleader]
            unfold Worker.finishOne
            dsimp only
            cases (s.workers w).fanOuts[n]? <;> rfl
          have hrunning' : (s.workers w).coordinator.running = true := hrunning
          simp only [hleader', hrunning', Bool.not_true, Bool.false_or] at hpermitted
          exact List.all_eq_true.mp hpermitted lease hlease)
        hadvance
      refine ⟨howns, ?_⟩
      rintro i' input' task' ⟨⟩ htask' hinit
      rw [htask] at htask'
      cases htask'
      exact hrows hinit

end Owns

/-- In every run of any number of workers whose steps are permitted, from a
state in which every worker holds only leases that name it and has nothing under
way: every lease that a worker holds names it, and a permitted step of an
initialization changes no row that names another worker. -/
theorem ownership_of_run (manager : LeaseManager) (dynamo : Service)
    (s₀ s : WorkerSystem) (labels : List (LeaseOwner × WorkerStep))
    (hstart : ∀ w, NamesOnly w (s₀.workers w).ownedLeases ∧
      (s₀.workers w).tasks = [])
    (hm : Meets (WorkerSystem.step manager dynamo)
      (fun s label => permitted s label = true) s₀ labels)
    (hr : run (WorkerSystem.step manager dynamo) s₀ labels = some s) :
    (∀ w, NamesOnly w (s.workers w).ownedLeases) ∧
      ∀ w i input task s', (s.workers w).tasks[i]? = some task →
        task.ofInitialize = true → permitted s (w, .advance i input) = true →
        WorkerSystem.step manager dynamo s (w, .advance i input) = some s' →
        ∀ key owner,
          attributeOf (s.tbl.row key) "leaseOwner" = some (.s owner) →
          owner ≠ w.value → s'.tbl.row key = s.tbl.row key := by
  have hinv : ∀ w, Owns w (s.workers w) := by
    refine Transition.run_invariant_of_meets
      (I := fun s : WorkerSystem => ∀ w, Owns w (s.workers w)) ?_ ?_ hm hr
    · rintro s ⟨w, l⟩ s' hs hpermitted hstep v
      obtain ⟨⟨worker', tbl'⟩, hworker, rfl⟩ := Option.map_eq_some_iff.mp hstep
      have howns := ((hs w).step hpermitted hworker).1
      by_cases hv : v = w
      · subst hv
        simpa using howns
      · simpa [Function.update_of_ne hv] using hs v
    · intro w
      obtain ⟨hheld, htasks⟩ := hstart w
      refine ⟨hheld, ?_⟩
      rw [htasks]
      intro task htask
      cases htask
  refine ⟨fun w => (hinv w).held, ?_⟩
  intro w i input task s' htask hinit hpermitted hstep
  obtain ⟨⟨worker', tbl'⟩, hworker, rfl⟩ := Option.map_eq_some_iff.mp hstep
  exact ((hinv w).step hpermitted hworker).2 i input task rfl htask hinit

def sampleInput : Input where
  now := ⟨100⟩
  order := ["shard-1"]
  errno := 0
  shuffle := .identity
  fate := .served

/-- Workers that have just been started, around the table of `sampleLease`. -/
def sampleWorkers : WorkerSystem where
  tbl := sampleTable
  workers w :=
    { coordinator :=
        { running := true
          taker := { workerID := w }
          renewer :=
            { workerID := w, leaseDuration := ⟨10⟩, ownedLeases := .empty } } }

def sampleInitialize (w : LeaseOwner) : List (LeaseOwner × WorkerStep) :=
  (w, .callInitialize) ::
    List.replicate 6 (w, .advance 0 sampleInput)

theorem ownership_of_run_sampleInitialize :
    ∃ s, run (WorkerSystem.step sampleManager sampleDynamo) sampleWorkers
        (sampleInitialize ⟨"worker-a"⟩) = some s ∧
      ∀ w, NamesOnly w (s.workers w).ownedLeases := by
  refine ⟨_, rfl, (ownership_of_run sampleManager sampleDynamo sampleWorkers _
    (sampleInitialize ⟨"worker-a"⟩) ?_ (by decide +kernel) rfl).1⟩
  intro w
  refine ⟨?_, rfl⟩
  intro key lease hlease
  have hnone : (sampleWorkers.workers w).ownedLeases.get key = none :=
    LeaseMap.get_empty key
  rw [hnone] at hlease
  cases hlease

/-- A worker starts while another one holds a lease. Its initialization renews
that lease: the row's counter has gone up, so that the owner's next renewal is
refused, and the worker holds a lease that names the other one. -/
theorem callInitialize_renews_foreign :
    ∃ s, run (WorkerSystem.step sampleManager sampleDynamo) sampleWorkers
        (sampleInitialize ⟨"worker-b"⟩) = some s ∧
      ((s.workers ⟨"worker-b"⟩).ownedLeases.get sampleLease.leaseKey).map
        (fun held => held.leaseOwner) = some (some ⟨"worker-a"⟩) ∧
      attributeOf (sampleTable.row "shard-1") "leaseOwner" =
        some (.s "worker-a") ∧
      attributeOf (sampleTable.row "shard-1") "leaseCounter" = some (.n "5") ∧
      attributeOf (s.tbl.row "shard-1") "leaseCounter" = some (.n "6") ∧
      (sampleManager.renewLease sampleDynamo sampleLease s.tbl).2 =
        .error .conditionalCheckFailed := by
  refine ⟨_, rfl, ?_⟩
  decide +kernel

end Leases

end Kclpp
