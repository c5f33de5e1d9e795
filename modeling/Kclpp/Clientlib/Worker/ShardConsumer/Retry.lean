import Kclpp.Clientlib.Worker.ShardConsumer.Shutdown

/-!
# Trying the initialization again

`startInitializing` expects a consumer in `FAILED_TO_INITIALIZE` that stores no
shard iterator. The callbacks of `getCheckpoint` and `getShardIterator` report
an error and leave the state as it is, and a record processor that fails to
initialize leaves the iterator where it is. `canBeRetried_iff` says which errors
leave a consumer that `Recovers`.
-/

namespace Kclpp

namespace Clientlib

namespace Worker

open Kinesis Leases

open Transition (run run_cons Meets meets_iff_meets)

def Task.initCallback {α : Type*} : Task α → Option ℕ
  | .getCheckpoint _ callback | .getShardIterator _ callback
  | .initializeProcessor _ callback => some callback
  | _ => none

def Task.failsInit {α : Type*} : Task α → TaskOutcome α → Bool
  | .getCheckpoint _ _, .gotCheckpoint (.error _) => true
  | .getShardIterator _ _, .gotShardIterator (.error _) => true
  | .getShardIterator _ _, .gotShardIterator (.ok iteratorID) =>
      (ShardIterator.createNew iteratorID).isAtEnd
  | .initializeProcessor _ _, .initialized (.error _) => true
  | _, _ => false

/-- The task is the record processor's `initialize`. -/
def Task.initializesProcessor {α : Type*} : Task α → Bool
  | .initializeProcessor _ _ => true
  | _ => false

namespace ShardConsumer

variable {α : Type*} {params : ShardConsumerParams} {s : ShardConsumer α}

/-- The steps of a retry in which nothing fails, of a consumer with `n` tasks
outstanding. -/
def retry (n callback callback' : ℕ)
    (sequenceNumber : Option ExtendedSequenceNumber)
    (iteratorID : ShardIteratorID) : List (Label α) :=
  [.startInitializing callback, .complete n (.gotCheckpoint (.ok sequenceNumber)),
    .complete n (.gotShardIterator (.ok iteratorID)), .startProcessing callback',
    .complete n (.initialized (.ok ()))]

/-- The consumer is in `FAILED_TO_INITIALIZE` without a shard iterator, the
checks of `startInitializing` pass, and a retry in which nothing fails reaches
`PROCESSING`. -/
structure Recovers (params : ShardConsumerParams) (s : ShardConsumer α) : Prop where
  stateType : s.stateType = .failedToInitialize
  shardIterator : s.shardIterator = none
  checks : ∀ callback, (s.startInitializing params callback).alive = true
  retries : ∀ callback callback' sequenceNumber iteratorID,
    (ShardIterator.createNew iteratorID).isAtEnd = false →
    ∃ s', run (step params) s
        (retry s.tasks.length callback callback' sequenceNumber iteratorID) =
        some s' ∧ s'.alive = true ∧ s'.stateType = .processing

/-- Where the step reports an error of the initialization to the callback that
waits for it, the consumer recovers. -/
def CanBeRetried (params : ShardConsumerParams) (s : ShardConsumer α)
    (l : Label α) : Prop :=
  ∀ i outcome task callback e s', l = .complete i outcome →
    s.tasks[i]? = some task → task.initCallback = some callback →
    step params s l = some s' → s'.answers = s.answers ++ [(callback, .error e)] →
    Recovers params s'

/-- A step that fails the initialization finds no iterator stored, and either it
is the record processor that fails or the state is `FAILED_TO_INITIALIZE`
already. -/
def failsWithoutIterator (s : ShardConsumer α) : Label α → Bool
  | .complete i outcome =>
      s.tasks[i]?.all fun task =>
        !task.failsInit outcome ||
          (s.shardIterator.isNone &&
            (task.initializesProcessor || s.stateType = .failedToInitialize))
  | _ => true

theorem failsWithoutIterator_iff {i : ℕ} {outcome : TaskOutcome α}
    {task : Task α} (htask : s.tasks[i]? = some task) :
    s.failsWithoutIterator (.complete i outcome) = true ↔
      (task.failsInit outcome = true → s.shardIterator = none ∧
        (task.initializesProcessor = true ∨
          s.stateType = .failedToInitialize)) := by
  simp only [failsWithoutIterator, htask, Option.all_some]
  cases task.failsInit outcome <;> simp

def PassesParents (params : ShardConsumerParams) : Prop :=
  params.build = .debug → params.shardInfo.parentShardIDs = []

theorem waitOnParentShards_of_passesParents (h : PassesParents params)
    (next : ShardConsumer α) : s.waitOnParentShards params next = next := by
  unfold waitOnParentShards dcheck
  cases hbuild : params.build with
  | debug => rw [h hbuild]; rfl
  | release => rfl

/-- The check of the parents is passed, or nothing has come of any call yet. -/
def Entered (params : ShardConsumerParams) (s : ShardConsumer α) : Prop :=
  PassesParents params ∨ s.alive = false ∨
    s.tasks = [] ∧ s.stateType ≠ .readyForProcessing

theorem dcheck_of_debug {condition : Bool} {next : ShardConsumer α}
    (hbuild : params.build = .debug) :
    s.dcheck params condition next = if condition then next else s.die := by
  rw [dcheck, hbuild]

theorem entered_step {s' : ShardConsumer α} {l : Label α}
    (hs : Entered params s) (h : step params s l = some s') :
    Entered params s' := by
  by_cases hpasses : PassesParents params
  · exact Or.inl hpasses
  have hbuild : params.build = .debug := by
    by_contra hne
    exact hpasses fun hdebug => absurd hdebug hne
  have hparents : params.shardInfo.parentShardIDs.isEmpty = false := by
    rw [List.isEmpty_eq_false_iff]
    exact fun hnil => hpasses fun _ => hnil
  rcases hs with hpasses' | hdead | ⟨htasks, hstate⟩
  · exact absurd hpasses' hpasses
  · simp only [step, hdead, Bool.false_eq_true, if_false] at h
    cases h
  unfold step at h
  split_ifs at h with halive
  cases l with
  | startInitializing callback =>
      cases h
      right; left
      simp only [startInitializing, waitOnParentShards, dcheck_of_debug hbuild,
        hparents, Bool.false_eq_true, if_false]
      split_ifs <;> rfl
  | startProcessing callback =>
      cases h
      right; left
      simp only [startProcessing, dcheck_of_debug hbuild, hstate, decide_false,
        Bool.false_eq_true, if_false]
      rfl
  | requestShutdown callback =>
      cases h
      right
      unfold requestShutdown
      simp only [dcheck_of_debug hbuild]
      split_ifs
      · exact Or.inr ⟨htasks, by simp⟩
      · exact Or.inl rfl
  | complete i outcome =>
      simp only [htasks, List.getElem?_nil, Option.bind_none] at h
      cases h

theorem startInitializing_of_failed (hpasses : PassesParents params)
    (hstate : s.stateType = .failedToInitialize) (hiter : s.shardIterator = none)
    (callback : ℕ) :
    s.startInitializing params callback =
      { s with stateType := .initializing }.doInitialize params callback := by
  simp only [startInitializing, hstate, hiter, waitOnParentShards_of_passesParents
    hpasses, Option.isNone_none, or_true, decide_true, dcheck_true]

theorem step_startInitializing (halive : s.alive = true) (callback : ℕ) :
    step params s (.startInitializing callback) =
      some (s.startInitializing params callback) := by
  simp only [step, halive, if_true]

theorem step_startProcessing (halive : s.alive = true) (callback : ℕ) :
    step params s (.startProcessing callback) =
      some (s.startProcessing params callback) := by
  simp only [step, halive, if_true]

theorem step_complete_post (params : ShardConsumerParams)
    (halive : s.alive = true) (task : Task α) (outcome : TaskOutcome α) :
    step params (s.post task) (.complete s.tasks.length outcome) =
      s.onComplete params task outcome := by
  have htask : (s.post task).tasks[s.tasks.length]? = some task := by
    simp [post]
  have hrest : (s.post task).tasks.eraseIdx s.tasks.length = s.tasks := by
    rw [post, List.eraseIdx_append_of_length_le le_rfl]
    simp
  rw [step_complete (s := s.post task) params halive htask, hrest]
  rfl

theorem onInitialize_of_nextID_some {token : ShardIteratorID}
    (htoken : s.nextID = some token) (callback : ℕ) :
    s.onInitialize params callback (.ok ()) =
      ({ s with stateType := .processing }.post
        (.getRecords (getRecordsAsync token
          params.streamConfig.maxRecordsPerCall.value))).answer callback
            (.ok ()) := by
  have hbatch := processNextBatchInner_of_nextID_some params
    (s := { s with stateType := .processing }) rfl htoken
  simp only [onInitialize, processBatches, ne_eq, not_true_eq_false, if_false,
    decide_true, dcheck_true]
  rw [hbatch]

/-- Failed, without an iterator, and past the check of the parents, the consumer
recovers. -/
theorem recovers_of_failed (hpasses : PassesParents params)
    (halive : s.alive = true) (hstate : s.stateType = .failedToInitialize)
    (hiter : s.shardIterator = none) : Recovers params s := by
  refine ⟨hstate, hiter, ?_, ?_⟩
  · intro callback
    rw [startInitializing_of_failed hpasses hstate hiter]
    exact halive
  intro callback callback' sequenceNumber iteratorID hopen
  let iter := ShardIterator.createNew iteratorID
  let initializing : ShardConsumer α := { s with stateType := .initializing }
  let ready : ShardConsumer α :=
    { s with
      stateType := .readyForProcessing
      shardIterator := some iter
      answers := s.answers ++ [(callback, .ok ())] }
  have hstart : step params s (.startInitializing callback) = some
      (initializing.post (.getCheckpoint params.shardInfo.shardID callback)) := by
    rw [step_startInitializing halive,
      startInitializing_of_failed hpasses hstate hiter]
    rfl
  have hcheckpoint : initializing.onGetCheckpoint params callback
      (.ok sequenceNumber) =
        initializing.post (.getShardIterator
          (shardIteratorRequest params sequenceNumber) callback) := by
    simp only [onGetCheckpoint, initializing, hiter, Option.isNone_none,
      dcheck_true]
  have hiterator : initializing.onGetShardIterator callback (.ok iteratorID) =
      ready := by
    simp only [onGetShardIterator, initializing, ready, iter, hopen,
      Bool.false_eq_true, if_false, answer, halive, if_true]
  have hprocess : step params ready (.startProcessing callback') = some
      (ready.post
        (.initializeProcessor params.shardInfo.shardID callback')) := by
    rw [step_startProcessing (s := ready) halive,
      startProcessing_of_ready params rfl rfl hopen]
  refine ⟨ready.onInitialize params callback' (.ok ()), ?_, ?_, ?_⟩
  · rw [retry, run_cons, hstart, Option.bind_some, run_cons,
      step_complete_post (s := initializing) params halive, onComplete,
      hcheckpoint, Option.bind_some, run_cons,
      step_complete_post (s := initializing) params halive, onComplete, hiterator,
      Option.bind_some, run_cons, hprocess, Option.bind_some, run_cons,
      step_complete_post (s := ready) params halive, onComplete]
    rfl
  · rw [onInitialize_of_nextID_some (s := ready) rfl]
    simp [answer, post, ready, halive]
  · rw [onInitialize_of_nextID_some (s := ready) rfl]
    simp [answer, post, ready, halive]

theorem answer_of_alive (halive : s.alive = true) (callback : ℕ)
    (outcome : Except ShardConsumerError Unit) :
    s.answer callback outcome =
      { s with answers := s.answers ++ [(callback, outcome)] } := by
  rw [answer, if_pos halive]

/-- What a callback of the initialization leaves behind when it reports an error:
the state is set by the record processor's callback only, and the iterator
stays. -/
theorem onComplete_of_failsInit (params : ShardConsumerParams)
    (halive : s.alive = true) {task : Task α} {outcome : TaskOutcome α}
    (hfails : task.failsInit outcome = true) :
    ∃ callback e, task.initCallback = some callback ∧
      s.onComplete params task outcome = some
        { s with
          stateType :=
            if task.initializesProcessor then .failedToInitialize
            else s.stateType
          answers := s.answers ++ [(callback, .error e)] } := by
  unfold Task.failsInit at hfails
  split at hfails
  · exact ⟨_, _, rfl, congrArg some (answer_of_alive halive _ _)⟩
  · exact ⟨_, _, rfl, congrArg some (answer_of_alive halive _ _)⟩
  · rw [ShardIterator.isAtEnd_createNew] at hfails
    cases hfails
  · exact ⟨_, _, rfl, congrArg some
      (answer_of_alive (s := { s with stateType := .failedToInitialize }) halive
        _ _)⟩
  · cases hfails

theorem answers_processNextBatchInner :
    (s.processNextBatchInner params).answers = s.answers := by
  unfold processNextBatchInner
  refine dcheck_cases params (P := fun t => t.answers = s.answers) rfl ?_ _
  split
  · rfl
  · refine dcheck_cases params (P := fun t => t.answers = s.answers) rfl ?_ _
    split <;> rfl

/-- A callback of the initialization that is called without an error leaves no
error in the answers. -/
theorem answers_onInitialize_ok (callback : ℕ) :
    (s.onInitialize params callback (.ok ())).answers = s.answers ∨
      (s.onInitialize params callback (.ok ())).answers =
        s.answers ++ [(callback, .ok ())] := by
  have hbatch : (processBatches params { s with stateType := .processing }).answers =
      s.answers := by
    simp only [processBatches, ne_eq, not_true_eq_false, if_false, decide_true,
      dcheck_true]
    exact answers_processNextBatchInner
  simp only [onInitialize, answer]
  split_ifs
  · exact Or.inr (by rw [hbatch])
  · exact Or.inl hbatch

theorem answers_onGetShardIterator_ok (callback : ℕ)
    (iteratorID : ShardIteratorID) :
    (s.onGetShardIterator callback (.ok iteratorID)).answers = s.answers ∨
      (s.onGetShardIterator callback (.ok iteratorID)).answers =
        s.answers ++ [(callback, .ok ())] := by
  simp only [onGetShardIterator, ShardIterator.isAtEnd_createNew,
    Bool.false_eq_true, if_false, answer]
  split_ifs
  · exact Or.inr rfl
  · exact Or.inl rfl

theorem answers_onGetCheckpoint_ok (callback : ℕ)
    (sequenceNumber : Option ExtendedSequenceNumber) :
    (s.onGetCheckpoint params callback (.ok sequenceNumber)).answers =
      s.answers := by
  simp only [onGetCheckpoint]
  refine dcheck_cases params (P := fun t => t.answers = s.answers) rfl ?_ _
  rfl

theorem failsInit_of_answers {s' : ShardConsumer α} {task : Task α}
    {outcome : TaskOutcome α}
    (h : s.onComplete params task outcome = some s') {callback : ℕ}
    (htask : task.initCallback = some callback) {e : ShardConsumerError}
    (hanswers : s'.answers = s.answers ++ [(callback, .error e)]) :
    task.failsInit outcome = true := by
  have hcontra : ∀ callback', ¬ (s'.answers = s.answers ∨
      s'.answers = s.answers ++ [(callback', .ok ())]) := by
    intro callback'
    rw [hanswers]
    simp
  unfold onComplete at h
  split at h
  · rename_i outcome
    cases outcome with
    | error e => rfl
    | ok sequenceNumber =>
        cases h
        exact absurd (Or.inl (answers_onGetCheckpoint_ok _ sequenceNumber))
          (hcontra callback)
  · rename_i outcome
    cases outcome with
    | error e => rfl
    | ok iteratorID =>
        cases h
        exact absurd (answers_onGetShardIterator_ok _ iteratorID) (hcontra _)
  · rename_i outcome
    cases outcome with
    | error e => rfl
    | ok _ =>
        cases h
        exact absurd (answers_onInitialize_ok _) (hcontra _)
  · cases htask
  · cases htask
  · cases htask
  · cases h

theorem passesParents_of_task (hs : Entered params s) (halive : s.alive = true)
    {i : ℕ} {task : Task α} (htask : s.tasks[i]? = some task) :
    PassesParents params := by
  rcases hs with hpasses | hdead | ⟨hnil, -⟩
  · exact hpasses
  · rw [halive] at hdead
    cases hdead
  · rw [hnil] at htask
    cases htask

/-- What the completion of a task must meet for the consumer to recover from the
error it reports. -/
theorem canBeRetried_complete_iff (hs : Entered params s)
    (halive : s.alive = true) {i : ℕ} {task : Task α}
    (htask : s.tasks[i]? = some task) (outcome : TaskOutcome α) :
    CanBeRetried params s (.complete i outcome) ↔
      (task.failsInit outcome = true → s.shardIterator = none ∧
        (task.initializesProcessor = true ∨
          s.stateType = .failedToInitialize)) := by
  constructor
  · intro hretried hfails
    obtain ⟨callback, e, hcallback, hcomplete⟩ := onComplete_of_failsInit params
      (s := { s with tasks := s.tasks.eraseIdx i }) halive hfails
    rw [← step_complete params halive htask] at hcomplete
    have hrecovers :=
      hretried i outcome task callback e _ rfl htask hcallback hcomplete rfl
    refine ⟨hrecovers.shardIterator, ?_⟩
    have hstate := hrecovers.stateType
    dsimp only at hstate
    split_ifs at hstate with hprocessor
    · exact Or.inl hprocessor
    · exact Or.inr hstate
  · rintro hok j outcome' task' callback e s' ⟨⟩ htask' hcallback hstep hanswers
    rw [htask] at htask'
    cases htask'
    rw [step_complete params halive htask] at hstep
    have hfails := failsInit_of_answers hstep hcallback hanswers
    obtain ⟨callback', e', -, hcomplete⟩ := onComplete_of_failsInit params
      (s := { s with tasks := s.tasks.eraseIdx i }) halive hfails
    rw [hcomplete] at hstep
    cases hstep
    obtain ⟨hiter, hfailed⟩ := hok hfails
    refine recovers_of_failed (passesParents_of_task hs halive htask) halive ?_
      hiter
    dsimp only
    rcases hfailed with hprocessor | hstate
    · rw [if_pos hprocessor]
    · rw [hstate, ite_self]

/-- In every run from a new consumer, every error that the initialization reports
leaves a consumer that recovers exactly if no step fails the initialization with
an iterator stored, or elsewhere than in the record processor unless the state
is `FAILED_TO_INITIALIZE` already. -/
theorem canBeRetried_iff (params : ShardConsumerParams) (ls : List (Label α))
    (s : ShardConsumer α) (hrun : run (step params) {} ls = some s) :
    Meets (step params) (CanBeRetried params) {} ls ↔
      Meets (step params) (fun s l => s.failsWithoutIterator l = true) {} ls := by
  refine meets_iff_meets (fun _ _ _ hs h => entered_step hs h) ?_
    (Or.inr (Or.inr ⟨rfl, by simp [getInitialShardConsumerStateType]⟩)) hrun
  intro s l s' hs hstep
  have halive : s.alive = true := by
    by_contra hdead
    simp only [step, hdead, if_false] at hstep
    cases hstep
  cases l with
  | complete i outcome =>
      cases htask : s.tasks[i]? with
      | none =>
          simp only [step, halive, if_true, htask, Option.bind_none] at hstep
          cases hstep
      | some task =>
          rw [failsWithoutIterator_iff htask]
          exact canBeRetried_complete_iff hs halive htask outcome
  | startInitializing _ | startProcessing _ | requestShutdown _ =>
      refine ⟨fun _ => rfl, ?_⟩
      rintro - i outcome task callback e s' ⟨⟩

/-- In a release build, a record processor is initialized before the consumer,
and cannot be. -/
def sampleRejected : List (Label ℕ) :=
  [.startProcessing 0, .complete 0 (.initialized (.error "no disk"))]

theorem canBeRetried_sampleRejected :
    Meets (step { build := .release }) (CanBeRetried { build := .release })
      ({} : ShardConsumer ℕ) sampleRejected :=
  (canBeRetried_iff { build := .release } sampleRejected _ rfl).mpr (by decide)

/-- The checkpoint cannot be read. The callback hears of it, and the state stays
`INITIALIZING`, so that the next `startInitializing` ends the process. -/
theorem checkpointError_notRetried :
    ∃ s : ShardConsumer ℕ, run (step {}) {}
        [.startInitializing 0,
          .complete 0 (.gotCheckpoint (.error ⟨"Throttled", "slow down"⟩))] =
        some s ∧
      s.answers = [(0, .error ⟨"Throttled : 'slow down' ()"⟩)] ∧
      s.stateType = .initializing ∧ s.alive = true ∧
      (s.startInitializing {} 1).alive = false ∧ ¬ Recovers {} s := by
  refine ⟨_, rfl, by decide +kernel, rfl, rfl, rfl, ?_⟩
  intro h
  cases h.stateType

end ShardConsumer

end Worker

end Clientlib

end Kclpp
