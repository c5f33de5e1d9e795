import Kclpp.Clientlib.Worker.ShardConsumer.Liveness

/-!
# Shutting a consumer down

`requestShutdown` stores a callback and sets the state; it is the loop over the
batches that calls the callback, when it next comes to stop. So the request is
answered if a task of the loop is outstanding. The callbacks of the
initialization and of the record processor's `initialize` set the state whatever
it is, and one that is outstanding undoes the request. `stopsLoop` collects what
a request needs to find, and `shutdownKept_iff` is the exact statement.
-/

namespace Kclpp

namespace Clientlib

namespace Worker

open Kinesis

open Transition (run)

def ShardConsumerStateType.precedesShutdown : ShardConsumerStateType → Bool
  | .waitingOnParentShards | .initializing | .readyForProcessing | .processing =>
      true
  | _ => false

/-- The task belongs to the initialization of the consumer or to that of its
record processor. -/
def Task.initializes {α : Type*} : Task α → Bool
  | .getCheckpoint _ _ | .getShardIterator _ _ | .initializeProcessor _ _ => true
  | _ => false

def Task.fetches {α : Type*} : Task α → Bool
  | .getRecords _ => true
  | _ => false

namespace ShardConsumer

def Label.completes {α : Type*} : Label α → Bool
  | .complete _ _ => true
  | _ => false

section Shutdown

variable {α : Type*} (params : ShardConsumerParams) (s : ShardConsumer α)

def numFetching : ℕ := s.tasks.countP Task.fetches

def timesCalled (callback : ℕ) : ℕ :=
  s.answers.countP fun answer => answer.1 = callback

/-- Completing the `i`-th task asks for a batch: among the tasks afterwards there
are more requests for records than among those it leaves alone. -/
def requestsBatch (i : ℕ) (outcome : TaskOutcome α) : Bool :=
  match step params s (.complete i outcome) with
  | some s' => (s.tasks.eraseIdx i).countP Task.fetches < s'.numFetching
  | none => false

/-- What a shutdown requested with `callback`, when the callback had been called
`n` times, has led to: the consumer does not go back to the processing of its
shard and asks for no batch, and at rest it has called the callback once. -/
structure KeepsShutdown (callback n : ℕ) : Prop where
  stateType : s.stateType.precedesShutdown = false
  noNewBatch : ∀ i outcome, s.requestsBatch params i outcome = false
  atRest : s.tasks = [] ∨ s.alive = false →
    s.stateType = .shutdownComplete ∧ s.timesCalled callback = n + 1

/-- What a request to shut down needs to find. It is the first one, a task of the
loop is outstanding and none of an initialization, and a request for records
that is in flight is the only one and has a token to move on from. -/
def stopsLoop : Bool :=
  (params.build = .release || s.shutdownCallback.isNone) &&
    s.hasContinuation && !s.tasks.any Task.initializes &&
    (s.numFetching = 0 || (s.numFetching = 1 && s.nextID.isSome))

end Shutdown

section Stopping

variable {α : Type*} (params : ShardConsumerParams) {s : ShardConsumer α}
  {callback n : ℕ}

/-- The loop has been asked to stop, or it has stopped. -/
inductive StopPhase (callback n : ℕ) (s : ShardConsumer α) : Prop
  | requested (hstate : s.stateType = .shutdownRequested)
      (hcallback : s.shutdownCallback = some callback)
      (hcalled : s.timesCalled callback = n)
  | complete (hstate : s.stateType = .shutdownComplete)
      (hcalled : s.timesCalled callback = n + 1)

/-- A consumer that is shutting down: nothing outstanding will set its state
back, and an answer with records finds the token it needs. -/
structure Stopping (callback n : ℕ) (s : ShardConsumer α) : Prop where
  alive : s.alive = true
  phase : StopPhase callback n s
  noInitialization : s.tasks.any Task.initializes = false
  fetching : s.numFetching = 0 ∨ (s.numFetching = 1 ∧ s.nextID.isSome = true)

/-- The loop has stopped or goes on to its end. -/
def Stops (s : ShardConsumer α) : Prop :=
  s.stateType = .shutdownComplete ∨ s.hasContinuation = true

theorem StopPhase.stateType_ne_processing (h : StopPhase callback n s) :
    s.stateType ≠ .processing := by
  cases h with
  | requested hstate => simp [hstate]
  | complete hstate => simp [hstate]

theorem StopPhase.precedesShutdown (h : StopPhase callback n s) :
    s.stateType.precedesShutdown = false := by
  cases h with
  | requested hstate => rw [hstate]; rfl
  | complete hstate => rw [hstate]; rfl

/-- What a stop of the loop does to a consumer that is shutting down: it calls the
callback, if that has not been done. -/
theorem onProcessingStop_of_stopPhase (halive : s.alive = true)
    (hphase : StopPhase callback n s)
    (outcome : Except ShardConsumerError ProcessBatchResult) :
    ∃ answers, s.onProcessingStop params outcome =
        { s with stateType := .shutdownComplete, answers := answers } ∧
      answers.countP (fun answer => decide (answer.1 = callback)) = n + 1 := by
  have hstopping : decide (s.stateType ≠ .processing) = true :=
    decide_eq_true hphase.stateType_ne_processing
  rw [onProcessingStop, hstopping, dcheck_true]
  cases hphase with
  | requested hstate hcallback hcalled =>
      refine ⟨s.answers ++ [(callback, outcome.map fun _ => ())], ?_, ?_⟩
      · rw [if_pos hstate]
        simp [hcallback, answer, halive]
      · rw [List.countP_append, List.countP_singleton, if_pos (by simp)]
        exact congrArg (· + 1) hcalled
  | complete hstate hcalled =>
      refine ⟨s.answers, ?_, hcalled⟩
      rw [if_neg (by simp [hstate])]
      cases s
      cases hstate
      rfl

/-- What the callbacks of the loop do to a consumer that is shutting down. -/
structure Quits (callback n : ℕ) (s s' : ShardConsumer α) : Prop where
  stopping : Stopping callback n s'
  stops : Stops s'
  numFetching : s'.numFetching = s.numFetching

theorem quits_onProcessingStop (h : Stopping callback n s)
    (outcome : Except ShardConsumerError ProcessBatchResult) :
    Quits callback n s (s.onProcessingStop params outcome) := by
  obtain ⟨answers, heq, hcalled⟩ :=
    onProcessingStop_of_stopPhase params h.alive h.phase outcome
  rw [heq]
  exact ⟨⟨h.alive, .complete rfl hcalled, h.noInitialization, h.fetching⟩,
    Or.inl rfl, rfl⟩

theorem quits_processBatches (h : Stopping callback n s) :
    Quits callback n s (s.processBatches params) := by
  rw [processBatches, if_pos h.phase.stateType_ne_processing]
  exact quits_onProcessingStop params h _

theorem quits_onProcessNextBatch (h : Stopping callback n s)
    (outcome : Except ShardConsumerError ProcessBatchResult) :
    Quits callback n s (s.onProcessNextBatch params outcome) := by
  cases outcome with
  | error e => exact quits_onProcessingStop params h _
  | ok result =>
      simp only [onProcessNextBatch]
      rw [if_pos h.phase.stateType_ne_processing]
      exact quits_onProcessingStop params h _

theorem quits_onProcessRecords (h : Stopping callback n s) (records : List α)
    (outcome : Except String Unit) :
    Quits callback n s (s.onProcessRecords params records outcome) := by
  cases outcome with
  | error what => exact quits_onProcessNextBatch params h (.error ⟨what⟩)
  | ok u =>
      exact quits_onProcessNextBatch params h
        (.ok { numProcessed := records.length })

theorem quits_onGetNextBatch (h : Stopping callback n s)
    (outcome : Except AWSError (GetRecordsResult α)) :
    Quits callback n s (s.onGetNextBatch params outcome) := by
  cases outcome with
  | error e => exact quits_onProcessNextBatch params h (.error ⟨e.message⟩)
  | ok result =>
      simp only [onGetNextBatch]
      split_ifs
      · have hposted : ({ s with
            delivered := s.delivered ++ [result.records] }.post
              (.processRecords result.records)).numFetching = s.numFetching := by
          simp [numFetching, post, Task.fetches]
        refine ⟨⟨h.alive, ?_, ?_, ?_⟩, Or.inr ?_, hposted⟩
        · cases h.phase with
          | requested hstate hcallback hcalled =>
              exact .requested hstate hcallback hcalled
          | complete hstate hcalled => exact .complete hstate hcalled
        · simp only [post, List.any_append, h.noInitialization]
          rfl
        · rw [hposted]
          exact h.fetching
        · simp [hasContinuation, post, Task.continuesLoop]
      · exact quits_onProcessNextBatch params h _

theorem quits_onGetRecords (h : Stopping callback n s)
    (hlast : s.numFetching = 0) (hnext : s.nextID.isSome = true)
    (outcome : Except AWSError (GetRecordsResult α)) :
    Quits callback n s (s.onGetRecords params outcome) := by
  obtain ⟨token, htoken⟩ := Option.isSome_iff_exists.mp hnext
  obtain ⟨iter, hiter, hiterNext⟩ := Option.bind_eq_some_iff.mp htoken
  have hread : ∃ iter', (s.shardIterator.bind fun iter =>
      iter.onGetRecords outcome) = some iter' := by
    rw [hiter]
    cases outcome with
    | error e => exact ⟨iter, rfl⟩
    | ok result => simp [ShardIterator.onGetRecords, hiterNext]
  obtain ⟨iter', hiter'⟩ := hread
  unfold onGetRecords
  rw [hiter']
  have hstopping : Stopping callback n { s with shardIterator := some iter' } := by
    refine ⟨h.alive, ?_, h.noInitialization, Or.inl hlast⟩
    cases h.phase with
    | requested hstate hcallback hcalled =>
        exact .requested hstate hcallback hcalled
    | complete hstate hcalled => exact .complete hstate hcalled
  obtain ⟨hstopping', hstops, hfetching⟩ :=
    quits_onGetNextBatch params hstopping outcome
  exact ⟨hstopping', hstops, hfetching⟩

theorem Stopping.eraseIdx (h : Stopping callback n s) (i : ℕ) :
    Stopping callback n { s with tasks := s.tasks.eraseIdx i } := by
  have hle : (s.tasks.eraseIdx i).countP Task.fetches ≤ s.numFetching :=
    (List.eraseIdx_sublist s.tasks i).countP_le
  refine ⟨h.alive, ?_, ?_, ?_⟩
  · cases h.phase with
    | requested hstate hcallback hcalled =>
        exact .requested hstate hcallback hcalled
    | complete hstate hcalled => exact .complete hstate hcalled
  · refine List.any_eq_false.mpr fun task htask => ?_
    exact List.any_eq_false.mp h.noInitialization task
      (List.mem_of_mem_eraseIdx htask)
  · rcases h.fetching with hzero | ⟨hone, hnext⟩
    · exact Or.inl (Nat.le_zero.mp (hzero ▸ hle))
    · rcases Nat.le_one_iff_eq_zero_or_eq_one.mp (hone ▸ hle) with h0 | h1
      · exact Or.inl h0
      · exact Or.inr ⟨h1, hnext⟩

/-- A completion keeps a consumer shutting down, and asks for no batch. -/
theorem quits_step {s' : ShardConsumer α} (h : Stopping callback n s) {i : ℕ}
    {outcome : TaskOutcome α}
    (hstep : step params s (.complete i outcome) = some s') :
    Quits callback n { s with tasks := s.tasks.eraseIdx i } s' := by
  unfold step at hstep
  rw [if_pos h.alive] at hstep
  obtain ⟨task, htask, hcomplete⟩ := Option.bind_eq_some_iff.mp hstep
  have hmem : task ∈ s.tasks := List.mem_of_getElem? htask
  have hloop : task.initializes = false := by
    simpa using List.any_eq_false.mp h.noInitialization task hmem
  have hrest := h.eraseIdx i
  cases task with
  | getCheckpoint shardID callback => cases hloop
  | getShardIterator request callback => cases hloop
  | initializeProcessor shardID callback => cases hloop
  | getRecords request =>
      cases outcome <;> cases hcomplete
      have hcount : s.numFetching =
          (s.tasks.eraseIdx i).countP Task.fetches + 1 :=
        TakenOut.countP_of_getElem? htask Task.fetches
      rcases h.fetching with hzero | ⟨hone, hnext⟩
      · omega
      · exact quits_onGetRecords params hrest (by simp only [numFetching]; omega) hnext _
  | processRecords records =>
      cases outcome <;> cases hcomplete
      exact quits_onProcessRecords params hrest _ _
  | processBatches =>
      cases outcome <;> cases hcomplete
      exact quits_processBatches params hrest

theorem Stopping.keepsShutdown (h : Stopping callback n s) (hstops : Stops s) :
    KeepsShutdown params s callback n := by
  refine ⟨h.phase.precedesShutdown, ?_, ?_⟩
  · intro i outcome
    unfold requestsBatch
    cases hstep : step params s (.complete i outcome) with
    | none => rfl
    | some s' =>
        have hquits := (quits_step params h hstep).numFetching
        simp only [numFetching] at hquits
        simp [numFetching, hquits]
  · rintro (htasks | hdead)
    · rcases hstops with hcomplete | hloop
      · cases h.phase with
        | requested hstate => simp [hstate] at hcomplete
        | complete hstate hcalled => exact ⟨hstate, hcalled⟩
      · simp [hasContinuation, htasks] at hloop
    · simp [h.alive] at hdead

theorem keepsShutdown_of_run {s' : ShardConsumer α} {ls : List (Label α)}
    (h : Stopping callback n s) (hstops : Stops s)
    (hcompletes : ∀ l ∈ ls, l.completes = true)
    (hr : run (step params) s ls = some s') :
    KeepsShutdown params s' callback n := by
  induction ls generalizing s with
  | nil =>
      cases hr
      exact h.keepsShutdown params hstops
  | cons l ls ih =>
      obtain ⟨t, hstep, hrun⟩ := (Transition.run_cons_eq_some_iff _ _ _ _ _).mp hr
      cases l with
      | complete i outcome =>
          obtain ⟨hstopping, hstops', -⟩ := quits_step params h hstep
          exact ih hstopping hstops'
            (fun l hl => hcompletes l (List.mem_cons_of_mem _ hl)) hrun
      | _ => cases hcompletes _ List.mem_cons_self

end Stopping

section Lost

variable {α : Type*} {params : ShardConsumerParams} {s : ShardConsumer α}
  {callback n : ℕ}

/-- Whatever is completed from here on, in whatever order, the shutdown is
kept. -/
def ShutdownKept (params : ShardConsumerParams) (callback n : ℕ)
    (s : ShardConsumer α) : Prop :=
  ∀ ls s', (∀ l ∈ ls, l.completes = true) → run (step params) s ls = some s' →
    KeepsShutdown params s' callback n

theorem ShutdownKept.here (h : ShutdownKept params callback n s) :
    KeepsShutdown params s callback n :=
  h [] s (by simp) rfl

theorem ShutdownKept.next {s' : ShardConsumer α}
    (h : ShutdownKept params callback n s) {i : ℕ} {outcome : TaskOutcome α}
    (hstep : step params s (.complete i outcome) = some s') :
    ShutdownKept params callback n s' := by
  intro ls t hcompletes hr
  refine h (.complete i outcome :: ls) t ?_ ?_
  · intro l hl
    rcases List.mem_cons.mp hl with rfl | hl
    · rfl
    · exact hcompletes l hl
  · exact (Transition.run_cons_eq_some_iff _ _ _ _ _).mpr ⟨s', hstep, hr⟩

theorem exists_getRecords_of_pos (h : 0 < s.numFetching) :
    ∃ request, Task.getRecords request ∈ s.tasks := by
  obtain ⟨task, hmem, hfetches⟩ := List.countP_pos_iff.mp h
  cases task with
  | getRecords request => exact ⟨request, hmem⟩
  | _ => cases hfetches

theorem step_complete (params : ShardConsumerParams) (halive : s.alive = true) {i : ℕ}
    {task : Task α} (htask : s.tasks[i]? = some task) (outcome : TaskOutcome α) :
    step params s (.complete i outcome) =
      { s with tasks := s.tasks.eraseIdx i }.onComplete params task outcome := by
  rw [step, if_pos halive]
  simp [htask]

/-- A process that ends before the shutdown is complete has lost it. -/
theorem ShutdownKept.not_die (h : ShutdownKept params callback n s)
    (hdead : s.alive = false) : s.stateType = .shutdownComplete :=
  (h.here.atRest (Or.inr hdead)).1

theorem stateType_processBatches (hstate : s.stateType = .processing) :
    (s.processBatches params).stateType = .processing := by
  rw [processBatches, if_neg (not_not.mpr hstate)]
  refine dcheck_cases params (P := fun t => t.stateType = .processing) hstate ?_ _
  cases htoken : s.nextID with
  | none =>
      rw [processNextBatchInner_of_nextID_none params htoken]
      exact hstate
  | some token =>
      rw [processNextBatchInner_of_nextID_some params hstate htoken]
      exact hstate

/-- An outstanding call of an initialization undoes the shutdown: it comes to a
state that precedes it, or to the end of the process. -/
theorem ShutdownKept.no_getShardIterator (h : ShutdownKept params callback n s)
    (halive : s.alive = true) (request : GetShardIteratorRequest) (cb : ℕ) :
    Task.getShardIterator request cb ∉ s.tasks := by
  intro hmem
  obtain ⟨i, htask⟩ := List.mem_iff_getElem?.mp hmem
  have hstep := step_complete params halive htask
    (.gotShardIterator (.ok ⟨""⟩))
  have hkeeps := (h.next hstep).here.stateType
  simp only [onGetShardIterator, ShardIterator.isAtEnd_createNew] at hkeeps
  simp [answer, halive, ShardConsumerStateType.precedesShutdown] at hkeeps

theorem ShutdownKept.no_getCheckpoint (h : ShutdownKept params callback n s)
    (halive : s.alive = true) (hstate : s.stateType ≠ .shutdownComplete)
    (shardID : ShardID) (cb : ℕ) : Task.getCheckpoint shardID cb ∉ s.tasks := by
  intro hmem
  obtain ⟨i, htask⟩ := List.mem_iff_getElem?.mp hmem
  have hstep := step_complete params halive htask
    (.gotCheckpoint (.ok none))
  have hnext := h.next hstep
  simp only [onGetCheckpoint] at hnext
  unfold dcheck at hnext
  have hposted : ∀ request, ¬ ShutdownKept params callback n
      ({ s with tasks := s.tasks.eraseIdx i }.post
        (.getShardIterator request cb)) := by
    intro request hkept
    exact hkept.no_getShardIterator halive request cb (by simp [post])
  split at hnext
  · split_ifs at hnext
    · exact hposted _ hnext
    · exact hstate (hnext.not_die rfl)
  · exact hposted _ hnext

theorem ShutdownKept.no_initializeProcessor
    (h : ShutdownKept params callback n s) (halive : s.alive = true)
    (shardID : ShardID) (cb : ℕ) :
    Task.initializeProcessor shardID cb ∉ s.tasks := by
  intro hmem
  obtain ⟨i, htask⟩ := List.mem_iff_getElem?.mp hmem
  have hstep := step_complete params halive htask
    (.initialized (.ok ()))
  have hkeeps := (h.next hstep).here.stateType
  have hstate : ∀ t : ShardConsumer α, t.stateType = .processing →
      (t.answer cb (.ok ())).stateType = .processing := by
    intro t ht
    exact answer_cases (P := fun u => u.stateType = .processing) ht
      (fun _ => ht) _ _
  rw [onInitialize, hstate _ (stateType_processBatches rfl)] at hkeeps
  cases hkeeps

/-- An answer with records that finds no token ends the process. -/
theorem ShutdownKept.no_fetching (h : ShutdownKept params callback n s)
    (halive : s.alive = true) (hstate : s.stateType ≠ .shutdownComplete)
    (hnext : s.nextID = none) (request : GetRecordsRequest) :
    Task.getRecords request ∉ s.tasks := by
  intro hmem
  obtain ⟨i, htask⟩ := List.mem_iff_getElem?.mp hmem
  have hstep := step_complete params halive htask
    (.gotRecords (.ok ⟨[], ""⟩))
  have hread : (s.shardIterator.bind fun iter =>
      iter.onGetRecords (α := α) (.ok ⟨[], ""⟩)) = none := by
    cases hiter : s.shardIterator with
    | none => rfl
    | some iter =>
        have hend : iter.nextID = none := by
          rw [nextID, hiter] at hnext
          exact hnext
        simp [ShardIterator.onGetRecords, hend]
  have hkept := h.next hstep
  simp only [onGetRecords, hread] at hkept
  exact hstate (hkept.not_die rfl)

/-- Of two requests for records that are in flight, the first may come back with
the end of the shard. -/
theorem ShutdownKept.numFetching_le_one [Inhabited α]
    (h : ShutdownKept params callback n s) (halive : s.alive = true)
    (hstate : s.stateType ≠ .shutdownComplete) : s.numFetching ≤ 1 := by
  by_contra hmany
  obtain ⟨request, hmem⟩ := exists_getRecords_of_pos
    (show 0 < s.numFetching by omega)
  obtain ⟨i, htask⟩ := List.mem_iff_getElem?.mp hmem
  have hcount : s.numFetching =
      (s.tasks.eraseIdx i).countP Task.fetches + 1 :=
    TakenOut.countP_of_getElem? htask Task.fetches
  cases hnext : s.nextID with
  | none => exact h.no_fetching halive hstate hnext request hmem
  | some token =>
      obtain ⟨iter, hiter, hiterNext⟩ := Option.bind_eq_some_iff.mp hnext
      have hstep := step_complete params halive htask
        (.gotRecords (.ok ⟨[default], ""⟩))
      have hread : (s.shardIterator.bind fun iter =>
          iter.onGetRecords (.ok ⟨[(default : α)], ""⟩)) =
            some ⟨token, none⟩ := by
        rw [hiter]
        simp [ShardIterator.onGetRecords, hiterNext, nextToken]
      have hkept := h.next hstep
      simp only [onGetRecords, hread, onGetNextBatch] at hkept
      obtain ⟨request', hmem'⟩ := exists_getRecords_of_pos
        (s := { s with tasks := s.tasks.eraseIdx i })
        (show 0 < (s.tasks.eraseIdx i).countP Task.fetches by omega)
      exact hkept.no_fetching halive hstate rfl request'
        (List.mem_append_left _ hmem')

theorem requestShutdown_eq
    (hfirst : params.build = .release ∨ s.shutdownCallback = none) :
    s.requestShutdown params callback =
      { s with
        shutdownCallback := some callback
        stateType := .shutdownRequested } := by
  rw [requestShutdown, dcheck]
  rcases hfirst with hrelease | hnone
  · rw [hrelease]
  · rw [hnone]
    cases params.build <;> rfl

end Lost

/-- A shutdown is requested of a consumer, in whatever state it is. Whatever
completes afterwards, in whatever order, the consumer does not go back to the
processing of its shard, asks for no batch, and when nothing is outstanding any
more has called the callback once and is in `SHUTDOWN_COMPLETE`: exactly if the
request finds what `stopsLoop` says. -/
theorem shutdownKept_iff {α : Type*} [Inhabited α]
    (params : ShardConsumerParams) (s : ShardConsumer α) (callback : ℕ)
    (halive : s.alive = true) :
    ShutdownKept params callback (s.timesCalled callback)
        (s.requestShutdown params callback) ↔
      s.stopsLoop params = true := by
  simp only [stopsLoop, Bool.and_eq_true, Bool.or_eq_true, decide_eq_true_eq,
    Bool.not_eq_true', Option.isNone_iff_eq_none]
  by_cases hfirst : params.build = .release ∨ s.shutdownCallback = none
  case neg =>
    refine iff_of_false (fun hkept => ?_) (fun h => hfirst h.1.1.1)
    have hdie : s.requestShutdown params callback = s.die := by
      obtain ⟨hrelease, hsome⟩ := not_or.mp hfirst
      rw [requestShutdown, dcheck]
      cases hbuild : params.build with
      | release => exact absurd hbuild hrelease
      | debug => simp [Option.isNone_iff_eq_none, hsome]
    rw [hdie] at hkept
    have hcalled := (hkept.here.atRest (Or.inr rfl)).2
    exact absurd hcalled (Nat.ne_of_lt (Nat.lt_succ_self _))
  rw [requestShutdown_eq hfirst]
  constructor
  · intro hkept
    -- nothing of the loop, or something of an initialization: it is lost
    have hnone : s.tasks.any Task.initializes = false := by
      refine List.any_eq_false.mpr fun task hmem => ?_
      cases task with
      | getCheckpoint shardID cb =>
          exact absurd hmem (hkept.no_getCheckpoint halive (by simp) shardID cb)
      | getShardIterator request cb =>
          exact absurd hmem (hkept.no_getShardIterator halive request cb)
      | initializeProcessor shardID cb =>
          exact absurd hmem (hkept.no_initializeProcessor halive shardID cb)
      | _ => simp [Task.initializes]
    have hloop : s.hasContinuation = true := by
      cases htasks : s.tasks with
      | nil => cases (hkept.here.atRest (Or.inl htasks)).1
      | cons task tasks =>
          have hinit : task.initializes = false := by
            simpa using List.any_eq_false.mp hnone task (by simp [htasks])
          rw [hasContinuation, htasks, List.any_cons]
          cases task <;> simp_all [Task.initializes, Task.continuesLoop]
    refine ⟨⟨⟨hfirst, hloop⟩, hnone⟩, ?_⟩
    have hle : s.numFetching ≤ 1 :=
      hkept.numFetching_le_one halive (by simp)
    rcases Nat.le_one_iff_eq_zero_or_eq_one.mp hle with hzero | hone
    · exact Or.inl hzero
    · refine Or.inr ⟨hone, ?_⟩
      cases hnext : s.nextID with
      | some token => rfl
      | none =>
          obtain ⟨request, hmem⟩ :=
            exists_getRecords_of_pos (hone.symm ▸ Nat.one_pos)
          exact absurd hmem (hkept.no_fetching halive (by simp) hnext request)
  · rintro ⟨⟨⟨-, hloop⟩, hnone⟩, hfetching⟩ ls s' hcompletes hr
    have hstopping : Stopping callback (s.timesCalled callback)
        { s with
          shutdownCallback := some callback
          stateType := .shutdownRequested } :=
      ⟨halive, .requested rfl rfl rfl, hnone, hfetching⟩
    exact keepsShutdown_of_run params hstopping (Or.inr hloop) hcompletes hr

theorem shutdownKept_iff_sampleBatch :
    ∃ s, run (step {}) {} sampleBatch = some s ∧
      ShutdownKept {} 2 (s.timesCalled 2) (s.requestShutdown {} 2) :=
  ⟨_, rfl, (shutdownKept_iff {} _ 2 rfl).mpr rfl⟩

/-- A shutdown is requested while the checkpoint is read, while the record
processor is initialized, and before anything has begun. The consumer goes on to
be ready for processing, goes on to process and asks for a batch, and never calls
the callback. -/
theorem sampleStart_shutdownLost :
    (∃ s, run (step {}) {}
        [.startInitializing 0, .requestShutdown 2,
          .complete 0 (.gotCheckpoint (.ok none)),
          .complete 0 (.gotShardIterator (.ok ⟨"first"⟩))] = some s ∧
      s.alive = true ∧ s.tasks = ([] : List (Task ℕ)) ∧
      s.stateType = .readyForProcessing ∧ s.timesCalled 2 = 0) ∧
    (∃ s, run (step {}) {}
        (sampleStart.take 4 ++
          [.requestShutdown 2, .complete 0 (.initialized (.ok ()))]) = some s ∧
      s.alive = true ∧ s.stateType = .processing ∧
      s.tasks = [.getRecords ⟨⟨"first"⟩, 500⟩]) ∧
    ∃ s, run (step {}) {} [.requestShutdown 2] = some s ∧
      s.alive = true ∧ s.tasks = ([] : List (Task ℕ)) ∧
      s.stateType = .shutdownRequested ∧ s.timesCalled 2 = 0 :=
  ⟨⟨_, rfl, rfl, rfl, rfl, rfl⟩, ⟨_, rfl, rfl, rfl, rfl⟩, _, rfl, rfl, rfl, rfl, rfl⟩

end ShardConsumer

end Worker

end Clientlib

end Kclpp
