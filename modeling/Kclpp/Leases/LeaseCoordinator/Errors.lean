import Kclpp.Leases.LeaseCoordinator.Ownership
import Kclpp.Leases.LeaseCoordinator.Rounds

/-!
# Errors of the store

An error that meets a renewal, a take or a listing of `initialize` is dealt with
where it arrives. An error that meets the listing of `LeaseTaker::takeLeases` is
handed on to `LeaseCoordinator::runTaker`, whose `CHECK` ends the process. So a
worker survives a run exactly if no failed listing of its taker is answered:
`survives_iff`.
-/

namespace Kclpp

namespace Leases

open Clock Dynamo Transition

def Task.isListingError : Task → Bool
  | .listedForTaker (.error _) => true
  | _ => false

namespace Worker

variable (manager : LeaseManager) (dynamo : Service)

@[simp] theorem alive_spawn (worker : Worker) (tasks : List Task) :
    (worker.spawn tasks).alive = worker.alive := rfl

@[simp] theorem alive_withRenewer (worker : Worker) (renewer : LeaseRenewer) :
    (worker.withRenewer renewer).alive = worker.alive := rfl

@[simp] theorem alive_postRenewals (worker : Worker) (leases : List Lease)
    (options : RenewLeaseOptions) (caller : ℕ → Caller) :
    (worker.postRenewals leases options caller).alive = worker.alive := rfl

@[simp] theorem alive_answer (worker : Worker) (answer : Answer) :
    (worker.answer answer).alive = worker.alive := rfl

@[simp] theorem alive_insertRenewed (worker : Worker)
    (outcome : RenewLeaseOutcome) :
    (worker.insertRenewed outcome).alive = worker.alive := by
  cases outcome with
  | error e => rfl
  | ok result =>
      unfold insertRenewed
      dsimp only
      split_ifs <;> rfl

@[simp] theorem alive_onListedForInitialize (worker : Worker)
    (outcome : Except DynamoDBErrors (List Lease)) :
    (worker.onListedForInitialize outcome).alive = worker.alive := by
  cases outcome with
  | error e => rfl
  | ok leases =>
      unfold onListedForInitialize
      dsimp only
      split_ifs <;> rfl

@[simp] theorem alive_onRenewalOver (worker : Worker)
    (outcome : RenewLeaseOutcome) (caller : Caller) :
    (worker.onRenewalOver outcome caller).alive = worker.alive := by
  cases caller with
  | inRenewLeases n => exact (onRenewalOver_inRenewLeases worker outcome n).2.2
  | inInitialize n =>
      have halive := alive_finishOne (worker.insertRenewed outcome) n
      rw [alive_insertRenewed] at halive
      simp only [onRenewalOver]
      cases hfinish : (worker.insertRenewed outcome).finishOne n with
      | mk leader worker' =>
          rw [hfinish] at halive
          cases leader with
          | true => exact halive
          | false => exact halive

@[simp] theorem alive_onDecideRenewal (worker : Worker) (now : NanosecondPoint)
    (lease : Lease) (options : RenewLeaseOptions) (caller : Caller) :
    (worker.onDecideRenewal now lease options caller).alive = worker.alive := by
  unfold onDecideRenewal
  split_ifs
  · rfl
  · rw [alive_onRenewalOver, alive_withRenewer]

@[simp] theorem alive_onTakeLeases_ok (worker : Worker) (leases : List Lease) :
    (worker.onTakeLeases (.ok leases)).alive = worker.alive := rfl

@[simp] theorem alive_onTaken (worker : Worker)
    (outcome : Except DynamoDBErrors TakeLeaseResult) (n : ℕ) :
    (worker.onTaken outcome n).alive = worker.alive := by
  have halive := alive_finishOne
    (worker.withTakenLeases n (worker.takenWith n outcome)) n
  simp only [onTaken]
  cases hfinish : (worker.withTakenLeases n (worker.takenWith n outcome)).finishOne
      n with
  | mk leader worker' =>
      rw [hfinish] at halive
      cases leader with
      | true => exact halive
      | false => exact halive

@[simp] theorem alive_onListedForTaker_ok (worker : Worker)
    (now : NanosecondPoint) (shuffle : RandomShuffle) (leases : List Lease) :
    (worker.onListedForTaker now shuffle (.ok leases)).alive = worker.alive := by
  unfold onListedForTaker
  dsimp only
  split_ifs <;> rfl

theorem alive_onListedForTaker_error (worker : Worker) (now : NanosecondPoint)
    (shuffle : RandomShuffle) (e : DynamoDBErrors) :
    (worker.onListedForTaker now shuffle (.error e)).alive = false := rfl

/-- What an answer does to a process that lives: it ends it exactly if it is the
failed listing of a round of the taker. -/
theorem alive_advance {worker worker' : Worker} (halive : worker.alive = true)
    {input : Input} {tbl tbl' : Table} {task : Task}
    (h : worker.advance manager dynamo input tbl task = some (worker', tbl')) :
    worker'.alive = !task.isListingError := by
  unfold advance at h
  cases task with
  | listForInitialize => cases h; exact halive
  | listForTaker => cases h; exact halive
  | renewal lease caller => cases h; exact halive
  | take lease n => cases h; exact halive
  | postedInitialize =>
      simp only [halive, if_true] at h
      cases h
      exact halive
  | listedForInitialize outcome =>
      simp only [halive, if_true] at h
      cases h
      rw [alive_onListedForInitialize]
      exact halive
  | listedForTaker outcome =>
      simp only [halive, if_true] at h
      cases h
      cases outcome with
      | error e => rw [alive_onListedForTaker_error]; rfl
      | ok leases => rw [alive_onListedForTaker_ok]; exact halive
  | postedRenewLeases =>
      simp only [halive, if_true] at h
      cases h
      exact halive
  | decideRenewal lease options caller =>
      simp only [halive, if_true] at h
      cases h
      rw [alive_onDecideRenewal]
      exact halive
  | renewed lease outcome caller =>
      simp only [halive, if_true] at h
      cases h
      rw [onRenewed, alive_onRenewalOver, alive_withRenewer]
      exact halive
  | taken outcome n =>
      simp only [halive, if_true] at h
      cases h
      rw [alive_onTaken]
      exact halive

def answersListingError (worker : Worker) : WorkerStep → Bool
  | .advance i _ => (worker.tasks[i]?.map Task.isListingError).getD false
  | _ => false

theorem alive_step {worker worker' : Worker} (halive : worker.alive = true)
    {tbl tbl' : Table} {label : WorkerStep}
    (h : worker.step manager dynamo tbl label = some (worker', tbl')) :
    worker'.alive = !worker.answersListingError label := by
  unfold step at h
  cases label with
  | callInitialize =>
      simp only [halive, if_true] at h
      cases h
      exact halive
  | callRunTaker =>
      simp only [halive, if_true] at h
      cases h
      exact halive
  | callRenewLeases =>
      simp only [halive, if_true] at h
      cases h
      exact halive
  | setRunning isCurrentlyRunning =>
      simp only [halive, if_true] at h
      cases h
      rfl
  | advance i input =>
      cases htask : worker.tasks[i]? with
      | none => simp only [htask, Option.bind_none] at h; cases h
      | some task =>
          simp only [htask, Option.bind_some] at h
          have hidle : ({ worker with tasks := worker.tasks.eraseIdx i } :
            Worker).alive = true := halive
          rw [alive_advance manager dynamo hidle h, answersListingError, htask]
          rfl

end Worker

namespace WorkerSystem

variable (manager : LeaseManager) (dynamo : Service) (w : LeaseOwner)

def answersListingError (s : WorkerSystem) (label : LeaseOwner × WorkerStep) :
    Bool :=
  label.1 = w && (s.workers w).answersListingError label.2

/-- The next tick of either timer finds the worker ready for it. -/
def TicksProceed (s : WorkerSystem) : Prop :=
  (s.step manager dynamo (w, .callRunTaker)).isSome = true ∧
    (s.step manager dynamo (w, .callRenewLeases)).isSome = true

/-- The worker survives the step. Where the step answers a failed listing, its
taker and the leases it owns are as they were, and its timers go on. -/
def Survives (s : WorkerSystem) (label : LeaseOwner × WorkerStep) : Prop :=
  ∀ s', s.step manager dynamo label = some s' →
    (s'.workers w).alive = true ∧
      (s.answersListingError w label = true →
        (s'.workers w).coordinator.taker = (s.workers w).coordinator.taker ∧
          (s'.workers w).ownedLeases = (s.workers w).ownedLeases ∧
          s'.TicksProceed manager dynamo w)

theorem alive_step {s s' : WorkerSystem} {w : LeaseOwner}
    (halive : (s.workers w).alive = true) {label : LeaseOwner × WorkerStep}
    (h : s.step manager dynamo label = some s') :
    (s'.workers w).alive = !s.answersListingError w label := by
  unfold step at h
  obtain ⟨⟨worker', tbl'⟩, hworker, rfl⟩ := Option.map_eq_some_iff.mp h
  unfold answersListingError
  dsimp only
  by_cases hw : label.1 = w
  · subst hw
    rw [Function.update_self,
      Worker.alive_step manager dynamo halive hworker]
    simp
  · rw [Function.update_of_ne (Ne.symm hw), halive]
    simp [hw]

/-- A worker survives a run exactly if its taker is not answered a failed listing
in it. -/
theorem survives_iff (s s' : WorkerSystem)
    (labels : List (LeaseOwner × WorkerStep))
    (halive : (s.workers w).alive = true)
    (hrun : run (WorkerSystem.step manager dynamo) s labels = some s') :
    Meets (WorkerSystem.step manager dynamo) (Survives manager dynamo w) s
        labels ↔
      Meets (WorkerSystem.step manager dynamo)
        (fun s label => s.answersListingError w label = false) s labels := by
  refine meets_iff_meets_of_kept (I := fun s => (s.workers w).alive = true) ?_ ?_
    halive hrun
  · intro s label s' halive hanswer hstep
    rw [alive_step manager dynamo halive hstep, hanswer]
    rfl
  · intro s label s' halive hstep
    have hafter := alive_step manager dynamo halive hstep
    constructor
    · intro hsurvives
      rw [(hsurvives s' hstep).1] at hafter
      simpa using hafter.symm
    · intro hanswer t ht
      rw [hstep] at ht
      cases ht
      rw [hanswer] at hafter
      refine ⟨hafter, fun h => ?_⟩
      rw [hanswer] at h
      cases h

def sampleTakerRound (fate : Fate) : List (LeaseOwner × WorkerStep) :=
  [(⟨"worker-a"⟩, .callRunTaker),
    (⟨"worker-a"⟩, .advance 0 { sampleInput with fate := fate }),
    (⟨"worker-a"⟩, .advance 0 sampleInput)]

/-- Worker a initializes. Worker b scans twice and finds the lease expired, and its take
is throttled, and then a renewal of worker a. -/
def sampleThrottled : List (LeaseOwner × WorkerStep) :=
  sampleInitialize ⟨"worker-a"⟩ ++
    [(⟨"worker-b"⟩, .callRunTaker), (⟨"worker-b"⟩, .advance 0 sampleInput),
      (⟨"worker-b"⟩, .advance 0 sampleInput), (⟨"worker-b"⟩, .callRunTaker),
      (⟨"worker-b"⟩, .advance 0 sampleInput),
      (⟨"worker-b"⟩, .advance 0 { sampleInput with now := ⟨60000000000⟩ }),
      (⟨"worker-b"⟩, .advance 0 { sampleInput with fate := .refused .throttling }),
      (⟨"worker-a"⟩, .callRenewLeases), (⟨"worker-a"⟩, .advance 0 sampleInput),
      (⟨"worker-a"⟩, .advance 0 { sampleInput with now := ⟨5⟩ }),
      (⟨"worker-b"⟩, .advance 0 sampleInput),
      (⟨"worker-a"⟩, .advance 0 { sampleInput with fate := .refused .throttling }),
      (⟨"worker-a"⟩, .advance 0 sampleInput)]

theorem survives_sampleThrottled :
    ∃ s, run (WorkerSystem.step sampleManager sampleDynamo) sampleWorkers
        sampleThrottled = some s ∧
      (s.workers ⟨"worker-a"⟩).ownedLeases.get sampleLease.leaseKey = none ∧
      (s.workers ⟨"worker-b"⟩).ownedLeases.get sampleLease.leaseKey = none ∧
      ∀ w, w = ⟨"worker-a"⟩ ∨ w = ⟨"worker-b"⟩ →
        Meets (WorkerSystem.step sampleManager sampleDynamo)
          (Survives sampleManager sampleDynamo w) sampleWorkers sampleThrottled := by
  refine ⟨_, rfl, by decide +kernel, by decide +kernel, ?_⟩
  rintro w (rfl | rfl)
  · exact (survives_iff sampleManager sampleDynamo _ sampleWorkers _ sampleThrottled rfl
      rfl).mpr (by decide +kernel)
  · exact (survives_iff sampleManager sampleDynamo _ sampleWorkers _ sampleThrottled rfl
      rfl).mpr (by decide +kernel)

/-- The listing of a round is throttled. The process ends, and neither timer
ticks again. -/
theorem throttledListing_aborts :
    ∃ s, run (WorkerSystem.step sampleManager sampleDynamo) sampleWorkers
        (sampleTakerRound (.refused .throttling)) = some s ∧
      (s.workers ⟨"worker-a"⟩).alive = false ∧
      s.step sampleManager sampleDynamo (⟨"worker-a"⟩, .callRunTaker) = none ∧
      s.step sampleManager sampleDynamo (⟨"worker-a"⟩, .callRenewLeases) = none :=
  ⟨_, rfl, rfl, rfl, rfl⟩

end WorkerSystem

end Leases

end Kclpp
