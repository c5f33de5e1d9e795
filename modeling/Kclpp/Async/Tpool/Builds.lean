import Kclpp.Async.Tpool.DataChannels

/-!
# A pool worker in the two builds

`DCHECK(e)` evaluates `e` where `NDEBUG` is not defined, and is no code at all where
it is. A check may be compiled out when evaluating it changes nothing where it is
true: `compiledOut_iff`. In the loop of a worker two of the three checks are not of
that kind, one of them around the running of the task: without it the worker takes
its tasks from the queue and drops them, `doesAll_iff_of_run`.

`DataChannels` has the worker with the checks folded into its functions. Here they
stand where the source has them; `map_channels_turn` says that this is the same
worker.
-/

open Std OrderedMap FirstOf

namespace Kclpp

namespace Async

namespace Tpool

/-- `DCHECK(e)`; `none` where `e` is not true or does not end. -/
def dcheck {σ : Type*} (dchecks : Bool) (e : σ → Option (Bool × σ)) (s : σ) :
    Option σ :=
  if dchecks then (e s).bind fun result => if result.1 then some result.2 else none
  else some s

@[simp] theorem dcheck_false {σ : Type*} (e : σ → Option (Bool × σ)) (s : σ) :
    dcheck false e s = some s := rfl

theorem dcheck_true_eq_some_iff {σ : Type*} (e : σ → Option (Bool × σ)) (s s' : σ) :
    dcheck true e s = some s' ↔ e s = some (true, s') := by
  unfold dcheck
  rw [if_pos rfl, Option.bind_eq_some_iff]
  constructor
  · rintro ⟨⟨holds, after⟩, he, h⟩
    cases holds with
    | true =>
        cases h
        exact he
    | false => cases h
  · intro he
    exact ⟨_, he, rfl⟩

/-- A program goes on in the same state without the check where that is passed. -/
def CompiledOut {σ : Type*} (e : σ → Option (Bool × σ)) : Prop :=
  ∀ s s', dcheck true e s = some s' → dcheck false e s = some s'

/-- A check can be compiled out when it changes nothing where it is true. -/
theorem compiledOut_iff {σ : Type*} (e : σ → Option (Bool × σ)) :
    CompiledOut e ↔ ∀ s s', e s = some (true, s') → s' = s := by
  simp only [CompiledOut, dcheck_true_eq_some_iff, dcheck_false, Option.some.injEq]
  exact forall₂_congr fun s s' => imp_congr_right fun _ => eq_comm

namespace WorkerChannels

/-- `EventContext::threadsafeRegisterDataChannel`, which sends the registration or
fails. -/
def threadsafeRegisterDataChannel (newChannel : EventDataChannel) (ctx : ℕ)
    (conditions : TaskConditions) (worker : WorkerChannels) :
    Option (Bool × WorkerChannels) :=
  if conditions.registers then
    some (true, { worker with
      registered := worker.registered ++ [(newChannel, ctx)] })
  else some (false, worker)

/-- The loop of `getDataChannel` on `hasReceiverAcked`; `none` where it does not end.
A context acknowledges what has been registered with it. -/
def awaitAck (newChannel : EventDataChannel) (ctx : ℕ) (conditions : TaskConditions)
    (worker : WorkerChannels) : Option WorkerChannels :=
  if (newChannel, ctx) ∈ worker.registered ∧ conditions.acks then some worker
  else none

/-- `found != dataChannels_.end()`. -/
def isFound (senderId : ℕ) (worker : WorkerChannels) :
    Option (Bool × WorkerChannels) :=
  some ((lookup worker.dataChannels senderId).isSome, worker)

/-- `ThreadPoolWorker::getDataChannel`, with its checks in their places. -/
def getDataChannelChecked (worker : WorkerChannels) (conditions : TaskConditions)
    (senderId ctx : ℕ) : Option (EventDataChannel × WorkerChannels) :=
  match lookup worker.dataChannels senderId with
  | some found => some (found, worker)
  | none =>
      let newChannel := worker.createSharedAsSender
      (dcheck worker.dchecks (threadsafeRegisterDataChannel newChannel ctx conditions)
        { worker with created := worker.created + 1 }).bind fun worker =>
      (worker.awaitAck newChannel ctx conditions).bind fun worker =>
      (dcheck worker.dchecks (isFound senderId) { worker with
        dataChannels := worker.dataChannels.insertIfNew senderId newChannel }).bind
        fun worker =>
      (lookup worker.dataChannels senderId).map fun found => (found, worker)

theorem getDataChannelChecked_eq {worker : WorkerChannels}
    (hdchecks : worker.dchecks = true) (conditions : TaskConditions)
    (senderId ctx : ℕ) :
    worker.getDataChannelChecked conditions senderId ctx =
      worker.getDataChannel conditions senderId ctx := by
  unfold getDataChannelChecked getDataChannel
  cases hlookup : lookup worker.dataChannels senderId with
  | some found => rfl
  | none =>
      obtain ⟨workEnds, registers, acks, sends⟩ := conditions
      cases registers <;> cases acks <;>
        simp [dcheck, threadsafeRegisterDataChannel, awaitAck, isFound, hdchecks,
          hlookup]

/-- Without them, the worker waits for ever for the answer to a registration that it
has not sent. -/
theorem getDataChannelChecked_eq_none {worker : WorkerChannels} {tasks : List Task}
    (h : worker.Served tasks) (hdchecks : worker.dchecks = false)
    (conditions : TaskConditions) {senderId : ℕ}
    (hnew : lookup worker.dataChannels senderId = none) (ctx : ℕ) :
    worker.getDataChannelChecked conditions senderId ctx = none := by
  have hunsent : (worker.createSharedAsSender, ctx) ∉ worker.registered :=
    fun hmem => Nat.lt_irrefl _ (h.numbered _ hmem)
  simp [getDataChannelChecked, hnew, hdchecks, awaitAck, hunsent]

theorem compiledOut_isFound (senderId : ℕ) : CompiledOut (isFound senderId) := by
  rw [compiledOut_iff]
  intro worker worker' h
  exact (Prod.mk.inj (Option.some.inj h)).2.symm

theorem not_compiledOut_threadsafeRegisterDataChannel (newChannel : EventDataChannel)
    (ctx : ℕ) {conditions : TaskConditions} (hregisters : conditions.registers) :
    ¬ CompiledOut (threadsafeRegisterDataChannel newChannel ctx conditions) := by
  rw [compiledOut_iff]
  intro h
  have hsame := h (createNew true 0) _ (if_pos hregisters)
  have hlength := congrArg (fun worker => worker.registered.length) hsame
  simp [createNew] at hlength

def Registered (worker : WorkerChannels) (channel : EventDataChannel) (_ : Task) :
    Prop :=
  ∃ ctx, (channel, ctx) ∈ worker.registered

end WorkerChannels

/-- The loop of a worker: its channels and the tasks that it has run. -/
structure WorkerLoop where
  channels : WorkerChannels
  ran : List Task := []

namespace WorkerLoop

/-- `ThreadPoolWorker::runTask`, with the outcome that it gives back; `none` where
the process does not survive it or it does not end. -/
def runTask (worker : WorkerLoop) (task : Task) (conditions : TaskConditions)
    (ctx : ℕ) : Option (Bool × WorkerLoop) :=
  let worker := { worker with ran := worker.ran ++ [task] }
  if conditions.workEnds then
    (worker.channels.getDataChannelChecked conditions task.senderId ctx).map
      fun found =>
        if conditions.sends then
          (true, { worker with
            channels := { found.2 with sent := found.2.sent ++ [(task, found.1)] } })
        else (false, { worker with channels := found.2 })
  else none

/-- One turn of `ThreadPoolWorker::threadFunc` that finds a task. -/
def turn (worker : WorkerLoop) (found : Task × TaskConditions) :
    Option WorkerLoop :=
  if found.1.valid then
    dcheck worker.channels.dchecks
      (fun worker => found.1.senderContext.bind fun ctx =>
        worker.runTask found.1 found.2 ctx) worker
  else some worker

theorem map_channels_turn (worker : WorkerLoop) (found : Task × TaskConditions) :
    (worker.turn found).map channels = worker.channels.step found := by
  unfold turn WorkerChannels.step
  cases hdchecks : worker.channels.dchecks with
  | false => simp
  | true =>
      cases found.1.valid with
      | false => simp
      | true =>
          cases found.1.senderContext with
          | none => rfl
          | some ctx =>
              simp only [dcheck, runTask, WorkerChannels.runTask, if_true,
                Bool.and_self, Option.bind_some,
                WorkerChannels.getDataChannelChecked_eq hdchecks]
              cases worker.channels.getDataChannel found.2 found.1.senderId ctx with
              | none => split_ifs <;> rfl
              | some channel => split_ifs <;> simp_all

theorem ran_runTask {worker worker' : WorkerLoop} {task : Task}
    {conditions : TaskConditions} {ctx : ℕ} {success : Bool}
    (h : worker.runTask task conditions ctx = some (success, worker')) :
    worker'.ran = worker.ran ++ [task] := by
  unfold runTask at h
  split_ifs at h <;> obtain ⟨found, -, h⟩ := Option.map_eq_some_iff.mp h <;> cases h <;>
    rfl

theorem not_compiledOut_runTask (task : Task) {worker worker' : WorkerLoop}
    {conditions : TaskConditions} {ctx : ℕ}
    (h : worker.runTask task conditions ctx = some (true, worker')) :
    ¬ CompiledOut fun worker : WorkerLoop => worker.runTask task conditions ctx := by
  rw [compiledOut_iff]
  intro hout
  have hran := ran_runTask h
  rw [hout worker worker' h] at hran
  simp at hran

def validTasks (turns : List (Task × TaskConditions)) : List Task :=
  (turns.map Prod.fst).filter Task.valid

theorem executed_eq (dchecks : Bool) (turns : List (Task × TaskConditions)) :
    WorkerChannels.executed dchecks turns =
      if dchecks then validTasks turns else [] := by
  cases dchecks <;> simp [WorkerChannels.executed, validTasks]

theorem ran_turn {worker worker' : WorkerLoop} {found : Task × TaskConditions}
    (h : worker.turn found = some worker') :
    worker'.ran =
      worker.ran ++ WorkerChannels.executed worker.channels.dchecks [found] := by
  rw [executed_eq]
  unfold turn at h
  split_ifs at h with hvalid
  · cases hdchecks : worker.channels.dchecks with
    | false =>
        rw [hdchecks, dcheck_false] at h
        cases h
        simp
    | true =>
        rw [hdchecks, dcheck_true_eq_some_iff] at h
        obtain ⟨ctx, -, h⟩ := Option.bind_eq_some_iff.mp h
        rw [ran_runTask h]
        simp [validTasks, hvalid]
  · cases h
    simp [validTasks, hvalid]

theorem turn_eq_self {worker : WorkerLoop} (hdchecks : worker.channels.dchecks = false)
    (found : Task × TaskConditions) : worker.turn found = some worker := by
  unfold turn
  rw [hdchecks, dcheck_false, ite_self]

theorem run_eq_self {worker : WorkerLoop} (hdchecks : worker.channels.dchecks = false)
    (turns : List (Task × TaskConditions)) :
    Transition.run turn worker turns = some worker := by
  induction turns with
  | nil => rfl
  | cons found turns ih =>
      rw [Transition.run_cons, turn_eq_self hdchecks]
      exact ih

theorem run_channels {worker worker' : WorkerLoop}
    {turns : List (Task × TaskConditions)}
    (hr : Transition.run turn worker turns = some worker') :
    Transition.run WorkerChannels.step worker.channels turns =
      some worker'.channels := by
  rw [← Transition.map_run map_channels_turn, hr]
  rfl

/-- With the checks, a run runs all valid tasks, in their order. -/
theorem ran_run {worker worker' : WorkerLoop} (hdchecks : worker.channels.dchecks = true)
    {turns : List (Task × TaskConditions)}
    (hr : Transition.run turn worker turns = some worker') :
    worker'.ran = worker.ran ++ validTasks turns := by
  induction turns generalizing worker with
  | nil =>
      cases hr
      simp [validTasks]
  | cons found turns ih =>
      obtain ⟨next, hturn, hrest⟩ :=
        (Transition.run_cons_eq_some_iff _ _ _ _ _).mp hr
      have hstep : worker.channels.step found = some next.channels := by
        rw [← map_channels_turn, hturn]
        rfl
      have hnext : next.channels.dchecks = true := by
        rw [(WorkerChannels.kept_step hstep).1, hdchecks]
      rw [ih hnext hrest, ran_turn hturn, hdchecks, executed_eq, if_pos rfl,
        List.append_assoc]
      simp only [validTasks, ← List.filter_append, ← List.map_append, List.singleton_append]

def createNew (dchecks : Bool) (thread : ℕ) : WorkerLoop where
  channels := .createNew dchecks thread

def builtWith (worker : WorkerLoop) (dchecks : Bool) : WorkerLoop :=
  { worker with channels := { worker.channels with dchecks := dchecks } }

/-- Each of the tasks has been run once, and its result has been sent once, on a
channel that is right for it. -/
structure HasDone (right : WorkerChannels → EventDataChannel → Task → Prop)
    (before after : WorkerLoop) (tasks : List Task) : Prop where
  ran : ∃ ran, after.ran = before.ran ++ ran ∧ ran.Perm tasks
  sent : ∃ sent, after.channels.sent = before.channels.sent ++ sent ∧
    (sent.map Prod.fst).Perm tasks ∧
      ∀ entry ∈ sent, right after.channels entry.2 entry.1

/-- Every task has the context of the first task of its thread. -/
def LikeFirst (earlier tasks : List Task) : Prop :=
  ∀ task ∈ tasks, ∀ first,
    firstOf Task.senderId task.senderId (earlier ++ tasks) = some first →
      first.senderContext = task.senderContext

/-- In a build, the worker does all the valid tasks that it finds. -/
def DoesAll (right : WorkerChannels → EventDataChannel → Task → Prop)
    (worker : WorkerLoop) (dchecks : Bool) (turns : List (Task × TaskConditions)) :
    Prop :=
  ∃ after, Transition.run turn (worker.builtWith dchecks) turns = some after ∧
    HasDone right (worker.builtWith dchecks) after (validTasks turns)

/-- Without the checks, the worker does all its tasks when it has none. -/
theorem doesAll_false_iff (right : WorkerChannels → EventDataChannel → Task → Prop)
    (worker : WorkerLoop) (turns : List (Task × TaskConditions)) :
    worker.DoesAll right false turns ↔ validTasks turns = [] := by
  have hrun : Transition.run turn (worker.builtWith false) turns =
      some (worker.builtWith false) := run_eq_self rfl turns
  unfold DoesAll
  rw [hrun]
  constructor
  · rintro ⟨after, hafter, hdone⟩
    obtain rfl := Option.some.inj hafter
    obtain ⟨ran, hran, hperm⟩ := hdone.ran
    rw [List.self_eq_append_right.mp hran] at hperm
    exact hperm.nil_eq.symm
  · intro hnone
    rw [hnone]
    exact ⟨_, rfl, ⟨[], by simp⟩, [], by simp⟩

/-- What holds of a worker with the checks after it has found what is in
`history`. -/
theorem served_of_run {thread : ℕ} {history : List (Task × TaskConditions)}
    {worker : WorkerLoop}
    (hhistory : Transition.run turn (createNew true thread) history = some worker) :
    worker.channels.dchecks = true ∧
      worker.channels.Served (validTasks history) := by
  have hr := run_channels hhistory
  constructor
  · refine Transition.run_invariant (I := fun channels => channels.dchecks = true) ?_
      rfl hr
    intro channels found channels' hdchecks hstep
    rw [(WorkerChannels.kept_step hstep).1, hdchecks]
  · have hserved := (WorkerChannels.served_createNew true thread).run hr
    rwa [executed_eq] at hserved

/-- Where the checks are passed, the results of the valid tasks are sent in the order
of the tasks. -/
theorem exists_sent_of_run {worker afterwards : WorkerLoop} {earlier : List Task}
    {turns : List (Task × TaskConditions)} (hdchecks : worker.channels.dchecks = true)
    (h : worker.channels.Served earlier)
    (hpasses : Transition.run turn worker turns = some afterwards) :
    afterwards.channels.Served (earlier ++ validTasks turns) ∧
      ∃ sent, afterwards.channels.sent = worker.channels.sent ++ sent ∧
        sent.map Prod.fst = validTasks turns := by
  have hserved := h.run (run_channels hpasses)
  rw [hdchecks, executed_eq, if_pos rfl] at hserved
  have hkept : ∃ sent, afterwards.channels.sent = worker.channels.sent ++ sent := by
    refine Transition.run_relation
      (R := fun before after : WorkerChannels => ∃ sent, after.sent = before.sent ++ sent)
      (fun _ => ⟨[], (List.append_nil _).symm⟩) ?_
      (fun _ _ _ hstep => (WorkerChannels.kept_step hstep).2) (run_channels hpasses)
    rintro s t u ⟨sent, ht⟩ ⟨sent', hu⟩
    exact ⟨sent ++ sent', by rw [hu, ht, List.append_assoc]⟩
  obtain ⟨sent, hsent⟩ := hkept
  refine ⟨hserved, sent, hsent, ?_⟩
  have hall := hserved.sent
  rw [hsent, List.map_append, h.sent] at hall
  exact List.append_cancel_left hall

/-- The worker does all its tasks then when the channels of the results are right. -/
theorem doesAll_true_iff {right : WorkerChannels → EventDataChannel → Task → Prop}
    {worker afterwards : WorkerLoop} {turns : List (Task × TaskConditions)}
    {sent : List (Task × EventDataChannel)} (hdchecks : worker.channels.dchecks = true)
    (hpasses : Transition.run turn worker turns = some afterwards)
    (hsent : afterwards.channels.sent = worker.channels.sent ++ sent)
    (htasks : sent.map Prod.fst = validTasks turns) :
    worker.DoesAll right true turns ↔
      ∀ entry ∈ sent, right afterwards.channels entry.2 entry.1 := by
  have hbuilt : worker.builtWith true = worker := by
    rw [builtWith, ← hdchecks]
  unfold DoesAll
  rw [hbuilt, hpasses]
  constructor
  · rintro ⟨after, hafter, hdone⟩
    obtain rfl := Option.some.inj hafter
    obtain ⟨sent', hsent', -, hright⟩ := hdone.sent
    rw [List.append_cancel_left (hsent.symm.trans hsent')]
    exact hright
  · intro hright
    exact ⟨afterwards, rfl, ⟨_, ran_run hdchecks hpasses, List.Perm.refl _⟩,
      sent, hsent, by rw [htasks], hright⟩

theorem registered_of_served {channels : WorkerChannels} {tasks : List Task}
    (h : channels.Served tasks) (hvalid : ∀ task ∈ tasks, task.valid = true)
    {entry : Task × EventDataChannel} (hentry : entry ∈ channels.sent) :
    channels.Registered entry.2 entry.1 := by
  obtain ⟨first, hfirst, hfor⟩ := h.first _ _ (h.sentOn _ _ hentry)
  have hfirst_valid := hvalid first (mem_of_firstOf hfirst)
  simp only [Task.valid, Bool.and_eq_true] at hfirst_valid
  obtain ⟨ctx, hctx⟩ := Option.isSome_iff_exists.mp hfirst_valid.1.1
  exact ⟨ctx, (hfor ctx).mpr hctx⟩

/-- The channels are those of the tasks' own contexts when every task has the context
of the first task of its thread. -/
theorem registeredFor_iff_likeFirst {channels : WorkerChannels}
    {earlier tasks : List Task} {sent : List (Task × EventDataChannel)}
    (h : channels.Served (earlier ++ tasks)) (hsent : ∀ entry ∈ sent, entry ∈ channels.sent)
    (htasks : sent.map Prod.fst = tasks) :
    (∀ entry ∈ sent, channels.RegisteredFor entry.2 entry.1) ↔
      LikeFirst earlier tasks := by
  unfold LikeFirst
  subst htasks
  rw [List.forall_mem_map]
  refine forall₂_congr fun entry hentry => ?_
  have htask : entry.1 ∈ earlier ++ sent.map Prod.fst :=
    List.mem_append_right _ (List.mem_map_of_mem hentry)
  obtain ⟨first, hfirst⟩ := exists_firstOf Task.senderId htask
  rw [h.registeredFor_iff (hsent entry hentry) hfirst, hfirst]
  simp

/-- In a run that passes all checks of the build that has them, a build does the work
of the tasks exactly when it is that build or there is no valid task, and on channels
of the tasks' own contexts when moreover every task has the context of the first task
of its thread. -/
theorem doesAll_iff_of_run (thread : ℕ) (history turns : List (Task × TaskConditions))
    (worker afterwards : WorkerLoop)
    (hhistory : Transition.run turn (createNew true thread) history = some worker)
    (hpasses : Transition.run turn worker turns = some afterwards) (dchecks : Bool) :
    (worker.DoesAll WorkerChannels.Registered dchecks turns ↔
        dchecks = true ∨ validTasks turns = []) ∧
      (worker.DoesAll WorkerChannels.RegisteredFor dchecks turns ↔
        dchecks = true ∧ LikeFirst (validTasks history) (validTasks turns) ∨
          validTasks turns = []) := by
  cases dchecks with
  | false =>
      rw [doesAll_false_iff, doesAll_false_iff]
      simp
  | true =>
      obtain ⟨hdchecks, hserved⟩ := served_of_run hhistory
      obtain ⟨hafter, sent, hsent, htasks⟩ :=
        exists_sent_of_run hdchecks hserved hpasses
      have hmem : ∀ entry ∈ sent, entry ∈ afterwards.channels.sent := by
        intro entry hentry
        rw [hsent]
        exact List.mem_append_right _ hentry
      have hvalid : ∀ task ∈ validTasks history ++ validTasks turns,
          task.valid = true := by
        intro task htask
        rcases List.mem_append.mp htask with h | h <;> exact (List.mem_filter.mp h).2
      rw [doesAll_true_iff hdchecks hpasses hsent htasks,
        doesAll_true_iff hdchecks hpasses hsent htasks,
        registeredFor_iff_likeFirst hafter hmem htasks]
      constructor
      · exact iff_of_true
          (fun entry hentry => registered_of_served hafter hvalid (hmem entry hentry))
          (Or.inl rfl)
      · have hempty : validTasks turns = [] →
            LikeFirst (validTasks history) (validTasks turns) := by
          intro hnone
          rw [hnone]
          exact List.forall_mem_nil _
        rw [eq_self, true_and, or_iff_left_of_imp hempty]

def sampleTasks : List (Task × TaskConditions) :=
  [(⟨some 1, 5, true⟩, {}), (⟨some 1, 5, true⟩, {})]

theorem doesAll_iff_of_run_sampleTasks :
    ∃ afterwards, Transition.run turn (createNew true 7) sampleTasks = some afterwards ∧
      ((createNew true 7).DoesAll WorkerChannels.Registered false sampleTasks ↔
          false = true ∨ validTasks sampleTasks = []) ∧
        ((createNew true 7).DoesAll WorkerChannels.RegisteredFor false sampleTasks ↔
          false = true ∧ LikeFirst (validTasks []) (validTasks sampleTasks) ∨
            validTasks sampleTasks = []) :=
  ⟨_, rfl, doesAll_iff_of_run 7 [] sampleTasks (createNew true 7) _ rfl rfl false⟩

/-- With the checks both are run; without them, none is. -/
theorem not_doesAll_sampleTasks :
    (∀ found ∈ sampleTasks, found.1.valid = true) ∧
      (∃ afterwards,
        Transition.run turn (createNew true 7) sampleTasks = some afterwards ∧
          afterwards.ran = [⟨some 1, 5, true⟩, ⟨some 1, 5, true⟩]) ∧
      (∃ afterwards,
        Transition.run turn (createNew false 7) sampleTasks = some afterwards ∧
          afterwards.ran = []) ∧
      ¬ (createNew true 7).DoesAll WorkerChannels.Registered false sampleTasks := by
  refine ⟨by decide, ⟨_, rfl, rfl⟩, ⟨_, rfl, rfl⟩, ?_⟩
  rw [doesAll_false_iff]
  decide

end WorkerLoop

end Tpool

end Async

end Kclpp
