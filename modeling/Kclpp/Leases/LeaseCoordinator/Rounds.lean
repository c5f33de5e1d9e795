import Kclpp.Leases.LeaseCoordinator.Workers
import Kclpp.Transition.Run

/-!
# Rounds as runs

A round of the renewer or of the taker, as a function, carries one operation
after the other from its decision to its answer. It is a run of the worker whose
event loop takes its callbacks one at a time: where nobody else writes between
the operations, an idle worker can reach the coordinator and the table that the
function gives.
-/

open Transition

namespace Kclpp

namespace Leases

open Clock Dynamo Util

/-- The fate of a request that the store refuses with an error, or serves. -/
def fateOf : Option DynamoDBErrors → Fate
  | some e => .refused e
  | none => .served

def Input.ofRenewal (conditions : RoundConditions) (key : LeaseKey) : Input where
  now := conditions.now key
  order := []
  errno := 0
  shuffle := .identity
  fate := fateOf (conditions.refuses key)

def Input.ofTaker (conditions : TakerConditions)
    (refused : Option DynamoDBErrors) : Input where
  now := conditions.scanTime
  order := conditions.order
  errno := conditions.errno
  shuffle := conditions.shuffle
  fate := fateOf refused

namespace Worker

section Rounds

variable (manager : LeaseManager) (dynamo : Service)

def stepAlone (s : Worker × Table) (label : WorkerStep) :
    Option (Worker × Table) :=
  s.1.step manager dynamo s.2 label

variable {worker : Worker}

theorem erased_spawn (hidle : worker.tasks = []) (tasks : List Task) :
    { worker.spawn tasks with tasks := [] } = worker := by
  cases worker
  cases hidle
  rfl

theorem reachable_head {task : Task} {rest : List Task} {tbl : Table}
    {next : Worker × Table} (input : Input) (htasks : worker.tasks = task :: rest)
    (h : { worker with tasks := rest }.advance manager dynamo input tbl task =
      some next) :
    Reachable (stepAlone manager dynamo) (worker, tbl) next := by
  refine reachable_of_step (.advance 0 input) ?_
  rw [stepAlone, step, htasks]
  exact h

theorem reachable_spawned {task : Task} {tbl : Table} {next : Worker × Table}
    (input : Input) (hidle : worker.tasks = [])
    (h : worker.advance manager dynamo input tbl task = some next) :
    Reachable (stepAlone manager dynamo) (worker.spawn [task], tbl) next := by
  have htasks : (worker.spawn [task]).tasks = [task] := by
    rw [spawn, hidle, List.nil_append]
  refine reachable_head manager dynamo input htasks ?_
  rw [erased_spawn hidle]
  exact h

theorem reachable_last {task : Task} {rest : List Task} {tbl : Table}
    {next : Worker × Table} (input : Input) (htasks : worker.tasks = rest ++ [task])
    (h : { worker with tasks := rest }.advance manager dynamo input tbl task =
      some next) :
    Reachable (stepAlone manager dynamo) (worker, tbl) next := by
  refine reachable_of_step (.advance rest.length input) ?_
  have herase : (rest ++ [task]).eraseIdx rest.length = rest := by
    rw [List.eraseIdx_append_of_length_le le_rfl, Nat.sub_self]
    exact List.append_nil rest
  rw [stepAlone, step, htasks, List.getElem?_concat_length, Option.bind_some,
    herase]
  exact h

theorem serve_fateOf {α : Type} (refused : Option DynamoDBErrors)
    (operation : Table → Table × Except DynamoDBErrors α) (tbl : Table) :
    serve (fateOf refused) operation tbl =
      match refused with
      | some e => (tbl, .error e)
      | none => operation tbl := by
  cases refused <;> rfl

theorem tasks_finishOne (worker : Worker) (n : ℕ) :
    (worker.finishOne n).2.tasks = worker.tasks := by
  unfold finishOne
  cases worker.fanOuts[n]? <;> rfl

theorem alive_finishOne (worker : Worker) (n : ℕ) :
    (worker.finishOne n).2.alive = worker.alive := by
  unfold finishOne
  cases worker.fanOuts[n]? <;> rfl

/-- The callback of a renewal of `renewLeases` changes neither the coordinator
nor the tasks. -/
theorem onRenewalOver_inRenewLeases (worker : Worker) (outcome : RenewLeaseOutcome)
    (n : ℕ) :
    (worker.onRenewalOver outcome (.inRenewLeases n)).coordinator =
        worker.coordinator ∧
      (worker.onRenewalOver outcome (.inRenewLeases n)).tasks = worker.tasks ∧
      (worker.onRenewalOver outcome (.inRenewLeases n)).alive = worker.alive := by
  have hcoordinator := coordinator_finishOne worker n
  have htasks := tasks_finishOne worker n
  have halive := alive_finishOne worker n
  simp only [onRenewalOver]
  cases hfinish : worker.finishOne n with
  | mk leader worker' =>
      rw [hfinish] at hcoordinator htasks halive
      cases leader with
      | true => exact ⟨hcoordinator, htasks, halive⟩
      | false => exact ⟨hcoordinator, htasks, halive⟩

theorem advance_decideRenewal (halive : worker.alive = true) (input : Input)
    (tbl : Table) (lease : Lease) (options : RenewLeaseOptions) (caller : Caller) :
    worker.advance manager dynamo input tbl (.decideRenewal lease options caller) =
      some (worker.onDecideRenewal input.now lease options caller, tbl) := by
  simp only [advance, halive, if_true]

theorem advance_renewed (halive : worker.alive = true) (input : Input)
    (tbl : Table) (lease : Lease) (outcome : RenewLeaseOutcome) (caller : Caller) :
    worker.advance manager dynamo input tbl (.renewed lease outcome caller) =
      some (worker.onRenewed lease outcome caller, tbl) := by
  simp only [advance, halive, if_true]

theorem reachable_renewLease {conditions : RoundConditions}
    (halone : ∀ key tbl, conditions.meanwhile key tbl = tbl)
    (halive : worker.alive = true) {lease : Lease} {options : RenewLeaseOptions}
    {n : ℕ} {rest : List Task}
    (htasks : worker.tasks = .decideRenewal lease options (.inRenewLeases n) :: rest)
    {s : LeaseRenewer.RoundState} (hrenewer : s.renewer = worker.coordinator.renewer) :
    ∃ worker', Reachable (stepAlone manager dynamo) (worker, s.tbl) (worker',
        (LeaseRenewer.renewLease manager dynamo conditions options s lease).tbl) ∧
      worker'.coordinator = { worker.coordinator with
        renewer := (LeaseRenewer.renewLease manager dynamo conditions options s
          lease).renewer } ∧
      worker'.tasks = rest ∧ worker'.alive = true := by
  let input := Input.ofRenewal conditions lease.leaseKey
  let idle : Worker := { worker with tasks := rest }
  have hidle : idle.alive = true := halive
  have hdecide : Reachable (stepAlone manager dynamo) (worker, s.tbl)
      (idle.onDecideRenewal input.now lease options (.inRenewLeases n), s.tbl) :=
    reachable_head manager dynamo input htasks
      (advance_decideRenewal manager dynamo hidle input _ _ _ _)
  unfold onDecideRenewal at hdecide
  unfold LeaseRenewer.renewLease
  rw [hrenewer]
  have hsame : idle.coordinator.renewer.shouldRenew options input.now lease =
      worker.coordinator.renewer.shouldRenew options
        (conditions.now lease.leaseKey) lease := rfl
  rw [hsame] at hdecide
  by_cases hrenew : worker.coordinator.renewer.shouldRenew options
      (conditions.now lease.leaseKey) lease = true
  · rw [if_pos hrenew] at hdecide ⊢
    have hserve : serve input.fate (manager.renewLease dynamo lease) s.tbl =
        LeaseRenewer.serveRenewal manager dynamo conditions lease s.tbl := by
      rw [LeaseRenewer.serveRenewal, halone]
      exact serve_fateOf _ _ _
    generalize LeaseRenewer.serveRenewal manager dynamo conditions lease s.tbl =
      answer at hserve ⊢
    have hsent : Reachable (stepAlone manager dynamo)
        (idle.spawn [.renewal lease (.inRenewLeases n)], s.tbl)
        (idle.spawn [.renewed lease answer.2 (.inRenewLeases n)], answer.1) := by
      refine reachable_last manager dynamo input rfl ?_
      rw [advance, hserve]
      rfl
    have hanswered : Reachable (stepAlone manager dynamo)
        (idle.spawn [.renewed lease answer.2 (.inRenewLeases n)], answer.1)
        (idle.onRenewed lease answer.2 (.inRenewLeases n), answer.1) :=
      reachable_last manager dynamo input rfl
        (advance_renewed manager dynamo hidle input _ _ _ _)
    obtain ⟨hcoordinator, hrest, hstill⟩ := onRenewalOver_inRenewLeases
      (idle.withRenewer (idle.coordinator.renewer.onRenewLease lease answer.2))
      answer.2 n
    exact ⟨_, (hdecide.trans hsent).trans hanswered, hcoordinator, hrest,
      hstill.trans halive⟩
  · rw [if_neg hrenew] at hdecide ⊢
    obtain ⟨hcoordinator, hrest, hstill⟩ := onRenewalOver_inRenewLeases
      (idle.withRenewer (idle.coordinator.renewer.dropLease lease))
      (LeaseRenewer.notRenewed lease) n
    exact ⟨_, hdecide, hcoordinator, hrest, hstill.trans halive⟩

theorem reachable_foldl_renewLease {conditions : RoundConditions}
    (halone : ∀ key tbl, conditions.meanwhile key tbl = tbl)
    (options : RenewLeaseOptions) (n : ℕ) (leases : List Lease) :
    ∀ (worker : Worker) (s : LeaseRenewer.RoundState), worker.alive = true →
      worker.tasks = leases.map (fun lease =>
        .decideRenewal lease options (.inRenewLeases n)) →
      s.renewer = worker.coordinator.renewer →
      ∃ worker', Reachable (stepAlone manager dynamo) (worker, s.tbl) (worker',
          (leases.foldl (LeaseRenewer.renewLease manager dynamo conditions options)
            s).tbl) ∧
        worker'.coordinator = { worker.coordinator with
          renewer := (leases.foldl (LeaseRenewer.renewLease manager dynamo
            conditions options) s).renewer } ∧
        worker'.tasks = [] ∧ worker'.alive = true := by
  induction leases with
  | nil =>
      intro worker s halive htasks hrenewer
      refine ⟨worker, Reachable.refl _ _, ?_, htasks, halive⟩
      rw [List.foldl_nil, hrenewer]
  | cons lease leases ih =>
      intro worker s halive htasks hrenewer
      obtain ⟨next, hnext, hcoordinator, hrest, hstill⟩ :=
        reachable_renewLease manager dynamo halone halive htasks hrenewer
      obtain ⟨worker', hrun, hdone, hidle, hend⟩ := ih next
        (LeaseRenewer.renewLease manager dynamo conditions options s lease) hstill
        hrest (by rw [hcoordinator])
      refine ⟨worker', hnext.trans hrun, ?_, hidle, hend⟩
      rw [hdone, hcoordinator]
      rfl

theorem reachable_runRenewer {conditions : RoundConditions}
    (halone : ∀ key tbl, conditions.meanwhile key tbl = tbl)
    (halive : worker.alive = true) (hidle : worker.tasks = []) (tbl : Table) :
    ∃ worker', Reachable (stepAlone manager dynamo) (worker, tbl) (worker',
        (worker.coordinator.runRenewer manager dynamo conditions tbl).2) ∧
      worker'.coordinator =
        (worker.coordinator.runRenewer manager dynamo conditions tbl).1 ∧
      worker'.tasks = [] ∧ worker'.alive = true := by
  have hcalled : Reachable (stepAlone manager dynamo) (worker, tbl)
      (worker.spawn [.postedRenewLeases], tbl) := by
    refine reachable_of_step .callRenewLeases ?_
    rw [stepAlone, step, halive]
    rfl
  have hposted : Reachable (stepAlone manager dynamo)
      (worker.spawn [.postedRenewLeases], tbl) (worker.onRenewLeases, tbl) := by
    refine reachable_spawned manager dynamo (Input.ofRenewal conditions ⟨""⟩)
      hidle ?_
    simp only [advance, halive, if_true]
  have hstart : worker.onRenewLeases.tasks = worker.ownedLeases.toList.map
      (fun lease => .decideRenewal lease {}
        (.inRenewLeases worker.fanOuts.length)) := by
    simp only [onRenewLeases, postRenewals, spawn, startFanOut, hidle,
      List.nil_append]
  obtain ⟨worker', hrun, hcoordinator, hend, hstill⟩ :=
    reachable_foldl_renewLease manager dynamo halone {} worker.fanOuts.length
      worker.ownedLeases.toList worker.onRenewLeases
      ⟨worker.coordinator.renewer, tbl, []⟩ halive hstart rfl
  exact ⟨worker', (hcalled.trans hposted).trans hrun, hcoordinator, hend, hstill⟩

theorem finishOne_of_fanOut {n : ℕ} {fanOut : FanOut}
    (h : worker.fanOuts[n]? = some fanOut) :
    worker.finishOne n = (fanOut.group.finishOne.1,
      { worker with
        fanOuts := worker.fanOuts.set n
          { fanOut with group := fanOut.group.finishOne.2 } }) := by
  rw [finishOne, h]

theorem onTaken_of_fanOut (worker : Worker) {n : ℕ} {fanOut : FanOut}
    (h : worker.fanOuts[n]? = some fanOut)
    (outcome : Except DynamoDBErrors TakeLeaseResult) :
    ∃ worker', worker'.fanOuts[n]? = some
          { group := fanOut.group.finishOne.2
            takenLeases := LeaseTaker.onTakeLease fanOut.takenLeases outcome } ∧
      worker'.coordinator = worker.coordinator ∧ worker'.tasks = worker.tasks ∧
      worker'.alive = worker.alive ∧
      worker.onTaken outcome n =
        if fanOut.group.finishOne.1 then
          worker'.onTakeLeases
            (.ok (LeaseTaker.onTakeLease fanOut.takenLeases outcome))
        else worker' := by
  have hleases : worker.takenWith n outcome =
      LeaseTaker.onTakeLease fanOut.takenLeases outcome := by
    rw [takenWith, h]
    rfl
  let leases := LeaseTaker.onTakeLease fanOut.takenLeases outcome
  let kept := worker.withTakenLeases n leases
  have hkept : kept.fanOuts[n]? = some { fanOut with takenLeases := leases } := by
    simp only [kept, withTakenLeases, List.getElem?_modify_eq, h]
    rfl
  have hlt := (List.getElem?_eq_some_iff.mp hkept).1
  refine ⟨(kept.finishOne n).2, ?_, coordinator_finishOne kept n,
    tasks_finishOne kept n, alive_finishOne kept n, ?_⟩
  · rw [finishOne_of_fanOut hkept]
    exact List.getElem?_set_self hlt
  · rw [onTaken, hleases, finishOne_of_fanOut hkept]
    cases fanOut.group.finishOne.1 <;> rfl

theorem advance_taken (halive : worker.alive = true) (input : Input) (tbl : Table)
    (outcome : Except DynamoDBErrors TakeLeaseResult) (n : ℕ) :
    worker.advance manager dynamo input tbl (.taken outcome n) =
      some (worker.onTaken outcome n, tbl) := by
  simp only [advance, halive, if_true]

theorem advance_listedForTaker (halive : worker.alive = true) (input : Input)
    (tbl : Table) (outcome : Except DynamoDBErrors (List Lease)) :
    worker.advance manager dynamo input tbl (.listedForTaker outcome) =
      some (worker.onListedForTaker input.now input.shuffle outcome, tbl) := by
  simp only [advance, halive, if_true]

theorem reachable_onTaken {conditions : TakerConditions}
    (halone : ∀ key tbl, conditions.meanwhile key tbl = tbl)
    (halive : worker.alive = true) {lease : Lease} {n : ℕ} {rest : List Task}
    (htasks : worker.tasks = .take lease n :: rest) (tbl : Table) :
    Reachable (stepAlone manager dynamo) (worker, tbl)
      ({ worker with tasks := rest }.onTaken (LeaseTaker.serveTake manager dynamo
        conditions worker.coordinator.taker.workerID lease tbl).2 n,
        (LeaseTaker.serveTake manager dynamo conditions
          worker.coordinator.taker.workerID lease tbl).1) := by
  let input := Input.ofTaker conditions (conditions.refuses lease.leaseKey)
  let idle : Worker := { worker with tasks := rest }
  have hidle : idle.alive = true := halive
  have hserve : serve input.fate (manager.takeLease dynamo lease
      worker.coordinator.taker.workerID) tbl = LeaseTaker.serveTake manager dynamo
        conditions worker.coordinator.taker.workerID lease tbl := by
    rw [LeaseTaker.serveTake, halone]
    exact serve_fateOf _ _ _
  generalize LeaseTaker.serveTake manager dynamo conditions
    worker.coordinator.taker.workerID lease tbl = answer at hserve ⊢
  have hsent : Reachable (stepAlone manager dynamo) (worker, tbl)
      (idle.spawn [.taken answer.2 n], answer.1) := by
    refine reachable_head manager dynamo input htasks ?_
    rw [← hserve]
    rfl
  exact hsent.trans (reachable_last manager dynamo input rfl
    (advance_taken manager dynamo hidle input _ _ _))

theorem reachable_takeLease_of_ne {conditions : TakerConditions}
    (halone : ∀ key tbl, conditions.meanwhile key tbl = tbl)
    (halive : worker.alive = true) {lease : Lease} {n : ℕ} {rest : List Task}
    (htasks : worker.tasks = .take lease n :: rest) {s : LeaseTaker.TakeState}
    {target done : ℕ}
    (hfanOut : worker.fanOuts[n]? = some ⟨⟨target, done, false⟩, s.takenLeases⟩)
    (hmore : done + 1 ≠ target) :
    ∃ next, Reachable (stepAlone manager dynamo) (worker, s.tbl) (next,
        (LeaseTaker.takeLease manager dynamo conditions
          worker.coordinator.taker.workerID s lease).tbl) ∧
      next.fanOuts[n]? = some ⟨⟨target, done + 1, false⟩,
        (LeaseTaker.takeLease manager dynamo conditions
          worker.coordinator.taker.workerID s lease).takenLeases⟩ ∧
      next.coordinator = worker.coordinator ∧ next.tasks = rest ∧
      next.alive = true := by
  have hrun := reachable_onTaken manager dynamo halone halive htasks s.tbl
  obtain ⟨next, hnext, hcoordinator, hrest, hstill, honTaken⟩ :=
    onTaken_of_fanOut { worker with tasks := rest } hfanOut
      (LeaseTaker.serveTake manager dynamo conditions
        worker.coordinator.taker.workerID lease s.tbl).2
  rw [AsyncGroup.finishOne_of_ne hmore] at honTaken hnext
  rw [honTaken] at hrun
  exact ⟨next, hrun, hnext, hcoordinator, hrest, hstill.trans halive⟩

theorem reachable_takeLease_of_eq {conditions : TakerConditions}
    (halone : ∀ key tbl, conditions.meanwhile key tbl = tbl)
    (halive : worker.alive = true) {lease : Lease} {n : ℕ} {rest : List Task}
    (htasks : worker.tasks = .take lease n :: rest) {s : LeaseTaker.TakeState}
    {target done : ℕ}
    (hfanOut : worker.fanOuts[n]? = some ⟨⟨target, done, false⟩, s.takenLeases⟩)
    (hlast : done + 1 = target) :
    ∃ next, Reachable (stepAlone manager dynamo) (worker, s.tbl) (next,
        (LeaseTaker.takeLease manager dynamo conditions
          worker.coordinator.taker.workerID s lease).tbl) ∧
      next.coordinator = { worker.coordinator with
        renewer := worker.coordinator.onTakeLeases
          (LeaseTaker.takeLease manager dynamo conditions
            worker.coordinator.taker.workerID s lease).takenLeases } ∧
      next.tasks = rest ∧ next.alive = true := by
  have hrun := reachable_onTaken manager dynamo halone halive htasks s.tbl
  obtain ⟨next, -, hcoordinator, hrest, hstill, honTaken⟩ :=
    onTaken_of_fanOut { worker with tasks := rest } hfanOut
      (LeaseTaker.serveTake manager dynamo conditions
        worker.coordinator.taker.workerID lease s.tbl).2
  rw [AsyncGroup.finishOne_of_eq hlast, if_pos rfl] at honTaken
  rw [honTaken] at hrun
  have hcoordinator' : next.coordinator = worker.coordinator := hcoordinator
  refine ⟨_, hrun, ?_, hrest, hstill.trans halive⟩
  simp only [onTakeLeases, withRenewer, answer, hcoordinator']
  rfl

theorem reachable_foldl_takeLease {conditions : TakerConditions}
    (halone : ∀ key tbl, conditions.meanwhile key tbl = tbl)
    {target n : ℕ} (leases : List Lease) :
    ∀ (lease : Lease) (worker : Worker) (s : LeaseTaker.TakeState) (done : ℕ),
      worker.alive = true →
      worker.tasks = (lease :: leases).map (fun lease => .take lease n) →
      worker.fanOuts[n]? = some ⟨⟨target, done, false⟩, s.takenLeases⟩ →
      done + (leases.length + 1) = target →
      ∃ worker', Reachable (stepAlone manager dynamo) (worker, s.tbl) (worker',
          ((lease :: leases).foldl (LeaseTaker.takeLease manager dynamo conditions
            worker.coordinator.taker.workerID) s).tbl) ∧
        worker'.coordinator = { worker.coordinator with
          renewer := worker.coordinator.onTakeLeases
            ((lease :: leases).foldl (LeaseTaker.takeLease manager dynamo
              conditions worker.coordinator.taker.workerID) s).takenLeases } ∧
        worker'.tasks = [] ∧ worker'.alive = true := by
  induction leases with
  | nil =>
      intro lease worker s done halive htasks hfanOut hlast
      exact reachable_takeLease_of_eq manager dynamo halone halive htasks hfanOut
        hlast
  | cons lease' leases ih =>
      intro lease worker s done halive htasks hfanOut htarget
      rw [List.length_cons] at htarget
      obtain ⟨next, hnext, hfanOut', hcoordinator, hrest, hstill⟩ :=
        reachable_takeLease_of_ne manager dynamo halone halive htasks hfanOut
          (by omega)
      obtain ⟨worker', hrun, hdone, hend⟩ := ih lease' next _ (done + 1) hstill
        hrest hfanOut' (by omega)
      rw [hcoordinator] at hrun hdone
      exact ⟨worker', hnext.trans hrun, hdone, hend⟩

/-- The listing of a round of the taker is a run up to what the taker makes of
it. -/
theorem reachable_onListedForTaker {conditions : TakerConditions}
    (halive : worker.alive = true) (hidle : worker.tasks = []) {tbl : Table}
    {updatedLeases : List Lease}
    (hscan : LeaseTaker.scanLeases manager dynamo conditions tbl =
      .ok updatedLeases) :
    Reachable (stepAlone manager dynamo) (worker, tbl)
      (worker.onListedForTaker conditions.scanTime conditions.shuffle
        (.ok updatedLeases), tbl) := by
  let input := Input.ofTaker conditions conditions.scanRefused
  have hcalled : Reachable (stepAlone manager dynamo) (worker, tbl)
      (worker.spawn [.listForTaker], tbl) := by
    refine reachable_of_step .callRunTaker ?_
    rw [stepAlone, step, halive]
    rfl
  have hserve : serve input.fate (fun tbl =>
      (tbl, manager.listLeases dynamo input.order input.errno tbl)) tbl =
        (tbl, .ok updatedLeases) := by
    rw [← hscan, LeaseTaker.scanLeases]
    refine (serve_fateOf _ _ _).trans ?_
    cases conditions.scanRefused <;> rfl
  have hlisted : Reachable (stepAlone manager dynamo)
      (worker.spawn [.listForTaker], tbl)
      (worker.spawn [.listedForTaker (.ok updatedLeases)], tbl) := by
    refine reachable_spawned manager dynamo input hidle ?_
    rw [advance, hserve]
  exact (hcalled.trans hlisted).trans (reachable_spawned manager dynamo input hidle
    (advance_listedForTaker manager dynamo halive input tbl _))

theorem onListedForTaker_of_nil {now : NanosecondPoint} {shuffle : RandomShuffle}
    {updatedLeases : List Lease} {taker : LeaseTaker}
    (htaker : worker.coordinator.taker.updateAllLeases now updatedLeases = taker)
    (hleases : taker.computeLeasesToTake shuffle taker.getExpiredLeases = []) :
    worker.onListedForTaker now shuffle (.ok updatedLeases) =
      (worker.withTaker taker).onTakeLeases (.ok []) := by
  simp [onListedForTaker, htaker, hleases]

theorem onListedForTaker_of_cons {now : NanosecondPoint} {shuffle : RandomShuffle}
    {updatedLeases : List Lease} {taker : LeaseTaker} {lease : Lease}
    {leases : List Lease}
    (htaker : worker.coordinator.taker.updateAllLeases now updatedLeases = taker)
    (hleases : taker.computeLeasesToTake shuffle taker.getExpiredLeases =
      lease :: leases) :
    worker.onListedForTaker now shuffle (.ok updatedLeases) =
      ((worker.withTaker taker).startFanOut (leases.length + 1)).spawn
        ((lease :: leases).map fun lease => .take lease worker.fanOuts.length) := by
  simp [onListedForTaker, htaker, hleases, withTaker]

/-- A round of the taker that does not end the process is a run of an idle
worker. -/
theorem reachable_runTaker {conditions : TakerConditions}
    (halone : ∀ key tbl, conditions.meanwhile key tbl = tbl)
    (halive : worker.alive = true) (hidle : worker.tasks = []) {tbl tbl' : Table}
    {after : LeaseCoordinator} {taken : List Lease}
    (h : worker.coordinator.runTaker manager dynamo conditions tbl =
      some (after, tbl', taken)) :
    ∃ worker', Reachable (stepAlone manager dynamo) (worker, tbl) (worker', tbl') ∧
      worker'.coordinator = after ∧ worker'.tasks = [] ∧ worker'.alive = true := by
  obtain ⟨updatedLeases, hscan, rfl, rfl, rfl⟩ :=
    (LeaseCoordinator.runTaker_eq_some_iff manager dynamo conditions
      worker.coordinator after tbl tbl' taken).mp h
  have hlisted := reachable_onListedForTaker manager dynamo halive hidle hscan
  generalize htaker : worker.coordinator.taker.updateAllLeases conditions.scanTime
    updatedLeases = taker
  unfold LeaseTaker.takeScannedLeases
  cases hleases : taker.computeLeasesToTake conditions.shuffle
      taker.getExpiredLeases with
  | nil =>
      rw [onListedForTaker_of_nil htaker hleases] at hlisted
      exact ⟨_, hlisted, rfl, hidle, halive⟩
  | cons lease leases =>
      rw [onListedForTaker_of_cons htaker hleases] at hlisted
      let started := ((worker.withTaker taker).startFanOut
        (leases.length + 1)).spawn ((lease :: leases).map fun lease =>
          .take lease worker.fanOuts.length)
      have htasks : started.tasks = (lease :: leases).map (fun lease =>
          .take lease worker.fanOuts.length) := by
        simp only [started, spawn, startFanOut, withTaker, hidle, List.nil_append]
      have hfanOut : started.fanOuts[worker.fanOuts.length]? =
          some ⟨⟨leases.length + 1, 0, false⟩, []⟩ := List.getElem?_concat_length
      obtain ⟨worker', hrun, hdone, hend⟩ := reachable_foldl_takeLease manager
        dynamo halone leases lease started ⟨tbl, []⟩ 0 halive htasks hfanOut
        (Nat.zero_add _)
      exact ⟨worker', hlisted.trans hrun, hdone, hend⟩

end Rounds

end Worker

end Leases

end Kclpp
