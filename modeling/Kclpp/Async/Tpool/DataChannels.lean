import Kclpp.Async.EventContext
import Kclpp.Transition.Run

/-!
# The data channels of a pool worker

A worker sends the result of a task on a channel that it has registered with the
event context of the task. It makes a channel for the first task of every sender
thread and looks it up for the others, by the thread alone: `sentToOwn_iff` says for
which tasks that is a channel of their own context. All channels of a worker carry
its own thread, so that a context keeps the read event of the first one only:
`allArmed_registeredWith_iff`.
-/

open Std OrderedMap FirstOf

namespace Kclpp

namespace Async

namespace Tpool

/-- `Task`, with the number of its event context and of the thread that has made
it. -/
structure Task where
  senderContext : Option ℕ := none
  senderId : ℕ := 0
  good : Bool := true
  deriving DecidableEq, Repr

def Task.valid (task : Task) : Bool :=
  task.senderContext.isSome && 0 < task.senderId && task.good

/-- What a worker meets when it runs a task: whether the work ends, the control
channel of the context takes the registration, the context acknowledges it, and the
data channel takes the message. Work that throws something else than a
`std::exception` does not end. -/
structure TaskConditions where
  workEnds : Bool := true
  registers : Bool := true
  acks : Bool := true
  sends : Bool := true
  deriving DecidableEq, Repr

/-- The data channels of a `ThreadPoolWorker`, with the number of channels it has
made, the contexts with which it has registered them and what it has sent. -/
structure WorkerChannels where
  dchecks : Bool
  thread : ℕ
  dataChannels : TreeMap ℕ EventDataChannel := ∅
  created : ℕ := 0
  registered : List (EventDataChannel × ℕ) := []
  sent : List (Task × EventDataChannel) := []

namespace WorkerChannels

def createSharedAsSender (worker : WorkerChannels) : EventDataChannel :=
  ⟨worker.created, worker.thread⟩

/-- `ThreadPoolWorker::getDataChannel`; `none` where a `DCHECK` fails or it waits for
ever. -/
def getDataChannel (worker : WorkerChannels) (conditions : TaskConditions)
    (senderId ctx : ℕ) : Option (EventDataChannel × WorkerChannels) :=
  match lookup worker.dataChannels senderId with
  | some found => some (found, worker)
  | none =>
      let newChannel := worker.createSharedAsSender
      if conditions.registers && conditions.acks then
        some (newChannel, { worker with
          created := worker.created + 1
          registered := worker.registered ++ [(newChannel, ctx)]
          dataChannels := worker.dataChannels.insertIfNew senderId newChannel })
      else none

/-- `ThreadPoolWorker::runTask`, inside a `DCHECK`; `none` where the process does not
survive it or it does not end. -/
def runTask (worker : WorkerChannels) (task : Task) (conditions : TaskConditions)
    (ctx : ℕ) : Option WorkerChannels :=
  if conditions.workEnds then
    (worker.getDataChannel conditions task.senderId ctx).bind fun found =>
      if conditions.sends then
        some { found.2 with sent := found.2.sent ++ [(task, found.1)] }
      else none
  else none

/-- One turn of `ThreadPoolWorker::threadFunc` that finds a task. A task that is not
valid is dropped; so is every task where `DCHECK` is compiled out. -/
def step (worker : WorkerChannels) (turn : Task × TaskConditions) :
    Option WorkerChannels :=
  if turn.1.valid && worker.dchecks then
    turn.1.senderContext.bind fun ctx => worker.runTask turn.1 turn.2 ctx
  else some worker

def executed (dchecks : Bool) (turns : List (Task × TaskConditions)) : List Task :=
  (turns.map Prod.fst).filter fun task => task.valid && dchecks

def createNew (dchecks : Bool) (thread : ℕ) : WorkerChannels where
  dchecks := dchecks
  thread := thread

/-- A channel is registered with the context of a task, and with no other. -/
def RegisteredFor (worker : WorkerChannels) (channel : EventDataChannel)
    (task : Task) : Prop :=
  ∀ ctx, (channel, ctx) ∈ worker.registered ↔ task.senderContext = some ctx

/-- Every result has been sent on a channel that is registered with the context of
its task. -/
def SentToOwn (worker : WorkerChannels) : Prop :=
  ∀ task channel, (task, channel) ∈ worker.sent → worker.RegisteredFor channel task

def withChannel (worker : WorkerChannels) (senderId ctx : ℕ) : WorkerChannels :=
  { worker with
    created := worker.created + 1
    registered := worker.registered ++ [(worker.createSharedAsSender, ctx)]
    dataChannels :=
      worker.dataChannels.insertIfNew senderId worker.createSharedAsSender }

/-- A turn drops its task, sends the result on the channel of the sender thread, or
makes that channel first. -/
theorem step_cases {worker worker' : WorkerChannels} {turn : Task × TaskConditions}
    (h : worker.step turn = some worker') :
    ((turn.1.valid && worker.dchecks) = false ∧ worker' = worker) ∨
      (turn.1.valid && worker.dchecks) = true ∧
        ((∃ channel, lookup worker.dataChannels turn.1.senderId = some channel ∧
            worker' = { worker with sent := worker.sent ++ [(turn.1, channel)] }) ∨
          ∃ ctx, lookup worker.dataChannels turn.1.senderId = none ∧
            turn.1.senderContext = some ctx ∧
            worker' = { worker.withChannel turn.1.senderId ctx with
              sent := worker.sent ++ [(turn.1, worker.createSharedAsSender)] }) := by
  unfold step at h
  split_ifs at h with hruns
  · right
    refine ⟨hruns, ?_⟩
    obtain ⟨ctx, hctx, h⟩ := Option.bind_eq_some_iff.mp h
    unfold runTask at h
    split_ifs at h with hworks hsends
    · obtain ⟨⟨channel, found⟩, hfound, h⟩ := Option.bind_eq_some_iff.mp h
      obtain rfl := Option.some.inj h
      unfold getDataChannel at hfound
      cases hlookup : lookup worker.dataChannels turn.1.senderId with
      | some existing =>
          rw [hlookup] at hfound
          cases hfound
          exact Or.inl ⟨_, rfl, rfl⟩
      | none =>
          rw [hlookup] at hfound
          dsimp only at hfound
          split_ifs at hfound
          cases hfound
          exact Or.inr ⟨ctx, rfl, hctx, rfl⟩
    · rw [Option.bind_fun_none] at h
      cases h
  · cases h
    exact Or.inl ⟨Bool.eq_false_iff.mpr hruns, rfl⟩

theorem kept_step {worker worker' : WorkerChannels} {turn : Task × TaskConditions}
    (h : worker.step turn = some worker') :
    worker'.dchecks = worker.dchecks ∧ ∃ sent, worker'.sent = worker.sent ++ sent := by
  rcases step_cases h with ⟨-, rfl⟩ | ⟨-, ⟨channel, -, rfl⟩ | ⟨ctx, -, -, rfl⟩⟩
  · exact ⟨rfl, [], (List.append_nil _).symm⟩
  · exact ⟨rfl, _, rfl⟩
  · exact ⟨rfl, _, rfl⟩

/-- What holds of a worker that has run `tasks`: under every sender thread it has the
channel that it has made for the first task of that thread, and everything has been
sent on the channel of its thread. -/
structure Served (worker : WorkerChannels) (tasks : List Task) : Prop where
  sent : worker.sent.map Prod.fst = tasks
  sentOn : ∀ task channel, (task, channel) ∈ worker.sent →
    lookup worker.dataChannels task.senderId = some channel
  unknown : ∀ senderId, lookup worker.dataChannels senderId = none →
    firstOf Task.senderId senderId tasks = none
  first : ∀ senderId channel, lookup worker.dataChannels senderId = some channel →
    ∃ task, firstOf Task.senderId senderId tasks = some task ∧
      worker.RegisteredFor channel task
  numbered : ∀ entry ∈ worker.registered, entry.1.number < worker.created
  made : ∀ senderId channel, lookup worker.dataChannels senderId = some channel →
    channel.number < worker.created
  own : ∀ entry ∈ worker.registered, entry.1.senderID = worker.thread
  distinct : (worker.registered.map Prod.fst).Nodup

theorem served_createNew (dchecks : Bool) (thread : ℕ) :
    (createNew dchecks thread).Served [] where
  sent := rfl
  sentOn := by simp [createNew]
  unknown := by simp
  first := by simp [createNew]
  numbered := by simp [createNew]
  made := by simp [createNew]
  own := by simp [createNew]
  distinct := List.nodup_nil

/-- The result of a task of a known thread is sent on the channel of that thread. -/
theorem Served.send {worker : WorkerChannels} {tasks : List Task}
    (h : worker.Served tasks) {task : Task} {channel : EventDataChannel}
    (hfound : lookup worker.dataChannels task.senderId = some channel) :
    Served { worker with sent := worker.sent ++ [(task, channel)] }
      (tasks ++ [task]) where
  sent := by simp [h.sent]
  sentOn := by
    intro sent other hsent
    rcases List.mem_append.mp hsent with hold | hlast
    · exact h.sentOn sent other hold
    · cases List.mem_singleton.mp hlast
      exact hfound
  unknown := by
    intro senderId hnone
    rw [firstOf_append_singleton, h.unknown senderId hnone, if_neg]
    rintro ⟨rfl, -⟩
    rw [hfound] at hnone
    cases hnone
  first := by
    intro senderId other hother
    obtain ⟨first, hfirst, hfor⟩ := h.first senderId other hother
    refine ⟨first, ?_, hfor⟩
    rw [firstOf_append_singleton, hfirst, if_neg (by simp)]
  numbered := h.numbered
  made := h.made
  own := h.own
  distinct := h.distinct

theorem lookup_withChannel {worker : WorkerChannels} {senderId : ℕ}
    (hnew : lookup worker.dataChannels senderId = none) (ctx other : ℕ) :
    lookup (worker.withChannel senderId ctx).dataChannels other =
      if senderId = other then some worker.createSharedAsSender
      else lookup worker.dataChannels other := by
  simp [withChannel, hnew]

/-- The new channel is registered with the context it is made for only, since no earlier
registration is of a channel with its number. -/
theorem Served.registeredFor_new {worker : WorkerChannels} {tasks : List Task}
    (h : worker.Served tasks) {task : Task} {ctx : ℕ}
    (hctx : task.senderContext = some ctx) (senderId : ℕ) :
    (worker.withChannel senderId ctx).RegisteredFor worker.createSharedAsSender task := by
  intro c
  simp only [withChannel, List.mem_append, List.mem_singleton, Prod.mk.injEq,
    true_and, hctx, Option.some.injEq]
  constructor
  · rintro (hold | rfl)
    · exact absurd (h.numbered _ hold) (Nat.lt_irrefl _)
    · rfl
  · rintro rfl
    exact Or.inr rfl

theorem RegisteredFor.withChannel {worker : WorkerChannels} {channel : EventDataChannel}
    {task : Task} (h : worker.RegisteredFor channel task)
    (hmade : channel.number < worker.created) (senderId ctx : ℕ) :
    (worker.withChannel senderId ctx).RegisteredFor channel task := by
  intro c
  rw [← h c]
  simp only [WorkerChannels.withChannel, List.mem_append, List.mem_singleton,
    Prod.mk.injEq]
  refine or_iff_left ?_
  rintro ⟨rfl, -⟩
  exact absurd hmade (Nat.lt_irrefl _)

/-- A channel that is made for a new thread is registered with the context of the
task it is made for. -/
theorem Served.make {worker : WorkerChannels} {tasks : List Task}
    (h : worker.Served tasks) {task : Task} {ctx : ℕ}
    (hnew : lookup worker.dataChannels task.senderId = none)
    (hctx : task.senderContext = some ctx) :
    Served { worker.withChannel task.senderId ctx with
      sent := worker.sent ++ [(task, worker.createSharedAsSender)] }
      (tasks ++ [task]) := by
  have hlookup := lookup_withChannel hnew ctx
  refine ⟨by simp [h.sent], ?_, ?_, ?_, ?_, ?_, ?_, ?_⟩
  · intro sent other hsent
    rw [hlookup]
    rcases List.mem_append.mp hsent with hold | hlast
    · have hfound := h.sentOn sent other hold
      rw [if_neg, hfound]
      intro hsame
      rw [← hsame, hnew] at hfound
      cases hfound
    · cases List.mem_singleton.mp hlast
      rw [if_pos rfl]
  · intro senderId hnone
    rw [hlookup] at hnone
    split_ifs at hnone with hsame
    rw [firstOf_append_singleton, h.unknown senderId hnone, if_neg]
    exact fun hnot => hsame hnot.1
  · intro senderId other hother
    rw [hlookup] at hother
    split_ifs at hother with hsame
    · cases hother
      subst hsame
      refine ⟨task, ?_, h.registeredFor_new hctx task.senderId⟩
      rw [firstOf_append_singleton, h.unknown _ hnew, if_pos ⟨rfl, rfl⟩]
    · obtain ⟨first, hfirst, hfor⟩ := h.first senderId other hother
      refine ⟨first, ?_, hfor.withChannel (h.made _ _ hother) task.senderId ctx⟩
      rw [firstOf_append_singleton, hfirst, if_neg (by simp)]
  · intro entry hentry
    rcases List.mem_append.mp hentry with hold | hlast
    · exact Nat.lt_succ_of_lt (h.numbered entry hold)
    · rw [List.mem_singleton.mp hlast]
      exact Nat.lt_succ_self _
  · intro senderId other hother
    rw [hlookup] at hother
    split_ifs at hother
    · cases hother
      exact Nat.lt_succ_self _
    · exact Nat.lt_succ_of_lt (h.made senderId other hother)
  · intro entry hentry
    rcases List.mem_append.mp hentry with hold | hlast
    · exact h.own entry hold
    · rw [List.mem_singleton.mp hlast]
      rfl
  · simp only [withChannel, List.map_append, List.map_cons, List.map_nil]
    refine List.nodup_append.mpr ⟨h.distinct, List.nodup_singleton _, ?_⟩
    rintro channel hold other hother rfl
    obtain ⟨entry, hentry, rfl⟩ := List.mem_map.mp hold
    have hnumber := h.numbered entry hentry
    rw [List.mem_singleton.mp hother] at hnumber
    exact Nat.lt_irrefl _ hnumber

theorem Served.run {worker worker' : WorkerChannels} {tasks : List Task}
    (h : worker.Served tasks) {turns : List (Task × TaskConditions)}
    (hr : Transition.run step worker turns = some worker') :
    worker'.Served (tasks ++ executed worker.dchecks turns) := by
  induction turns generalizing worker tasks with
  | nil =>
      cases hr
      simpa [executed] using h
  | cons turn turns ih =>
      obtain ⟨next, hstep, hrest⟩ :=
        (Transition.run_cons_eq_some_iff _ _ _ _ _).mp hr
      rcases step_cases hstep with ⟨hdrops, rfl⟩ | ⟨hruns, hsends⟩
      · have hserved := ih h hrest
        simpa [executed, hdrops] using hserved
      · have hexecuted : executed worker.dchecks (turn :: turns) =
            turn.1 :: executed worker.dchecks turns := by
          simp only [executed, List.map_cons, List.filter_cons, hruns, if_true]
        rw [hexecuted, ← List.singleton_append, ← List.append_assoc]
        rcases hsends with ⟨channel, hfound, rfl⟩ | ⟨ctx, hnew, hctx, rfl⟩
        · have hserved := ih (h.send hfound) hrest
          exact hserved
        · have hserved := ih (h.make hnew hctx) hrest
          exact hserved

/-- A result has been sent on a channel of its own context when that is the context
of the first task of its thread. -/
theorem Served.registeredFor_iff {worker : WorkerChannels} {tasks : List Task}
    (h : worker.Served tasks) {task first : Task} {channel : EventDataChannel}
    (hsent : (task, channel) ∈ worker.sent)
    (hfirst : firstOf Task.senderId task.senderId tasks = some first) :
    worker.RegisteredFor channel task ↔ first.senderContext = task.senderContext := by
  obtain ⟨first', hfirst', hfor⟩ := h.first _ _ (h.sentOn _ _ hsent)
  rw [hfirst] at hfirst'
  cases hfirst'
  constructor
  · intro hown
    exact Option.ext fun ctx => (hfor ctx).symm.trans (hown ctx)
  · intro hsame ctx
    rw [hfor ctx, hsame]

/-- The channels are right for all tasks when they are right for the first task of
every thread, and the others have the same context. -/
theorem Served.sentToOwn_iff {worker : WorkerChannels} {tasks : List Task}
    (h : worker.Served tasks) :
    worker.SentToOwn ↔ SameForKey Task.senderId Task.senderContext tasks := by
  rw [← forall_firstOf_iff, ← h.sent]
  constructor
  · intro hown task htask first hfirst
    obtain ⟨⟨task, channel⟩, hsent, rfl⟩ := List.mem_map.mp htask
    rw [h.sent] at hfirst
    exact (h.registeredFor_iff hsent hfirst).mp (hown _ _ hsent)
  · intro hsame task channel hsent
    have htask : task ∈ worker.sent.map Prod.fst := List.mem_map_of_mem hsent
    obtain ⟨first, hfirst⟩ := exists_firstOf Task.senderId htask
    have hcontext := hsame task htask first hfirst
    rw [h.sent] at hfirst
    exact (h.registeredFor_iff hsent hfirst).mpr hcontext

/-- Whatever the tasks, every result is sent on a channel of its own context exactly
when no two tasks that are run come from one thread with different contexts. -/
theorem sentToOwn_of_run_iff (dchecks : Bool) (thread : ℕ)
    (turns : List (Task × TaskConditions)) (worker : WorkerChannels)
    (hr : Transition.run step (createNew dchecks thread) turns = some worker) :
    worker.SentToOwn ↔
      ∀ task ∈ executed dchecks turns, ∀ other ∈ executed dchecks turns,
        task.senderId = other.senderId → task.senderContext = other.senderContext :=
  ((served_createNew dchecks thread).run hr).sentToOwn_iff

def registeredWith (worker : WorkerChannels) (ctx : ℕ) : List EventDataChannel :=
  (worker.registered.filter fun entry => entry.2 = ctx).map Prod.fst

/-- A context that a worker has registered its channels with keeps all of them armed
exactly when there is no more than one. -/
theorem allArmed_registeredWith_iff (dchecks : Bool) (thread : ℕ)
    (turns : List (Task × TaskConditions)) (worker : WorkerChannels)
    (hr : Transition.run step (createNew dchecks thread) turns = some worker)
    (ctx : ℕ) :
    (EventContext.bindAll (worker.registeredWith ctx)).AllArmed ↔
      (worker.registeredWith ctx).length ≤ 1 := by
  have hserved := (served_createNew dchecks thread).run hr
  have hnodup : (worker.registeredWith ctx).Nodup :=
    hserved.distinct.sublist (List.filter_sublist.map Prod.fst)
  have hown : ∀ channel ∈ worker.registeredWith ctx,
      channel.senderID = worker.thread := by
    intro channel hchannel
    obtain ⟨entry, hentry, rfl⟩ := List.mem_map.mp hchannel
    exact hserved.own entry (List.mem_of_mem_filter hentry)
  generalize worker.registeredWith ctx = channels at hnodup hown
  have hbound := EventContext.boundTo_bindAll channels
  unfold EventContext.AllArmed
  rw [hbound.acked]
  simp only [hbound.armed_iff]
  constructor
  · intro hall
    cases channels with
    | nil => exact Nat.zero_le _
    | cons first rest =>
        cases rest with
        | nil => exact le_rfl
        | cons second rest =>
            have hsame : first.senderID = second.senderID := by
              rw [hown first (by simp), hown second (by simp)]
            have hsecond := hall second (by simp)
            simp only [firstOf, List.find?_cons, hsame, decide_true] at hsecond
            cases hsecond
            simp at hnodup
  · intro hle channel hchannel
    have hpos := List.length_pos_of_mem hchannel
    obtain ⟨first, rfl⟩ := List.length_eq_one_iff.mp (Nat.le_antisymm hle hpos)
    rw [List.mem_singleton.mp hchannel]
    simp [firstOf]

/-- Two tasks of one thread, made for two contexts. -/
def sampleTurns : List (Task × TaskConditions) :=
  [(⟨some 1, 5, true⟩, {}), (⟨some 2, 5, true⟩, {})]

theorem sentToOwn_of_run_iff_sampleTurns :
    ∃ worker, Transition.run step (createNew true 7) sampleTurns = some worker ∧
      (worker.SentToOwn ↔
        ∀ task ∈ executed true sampleTurns, ∀ other ∈ executed true sampleTurns,
          task.senderId = other.senderId →
            task.senderContext = other.senderContext) :=
  ⟨_, rfl, sentToOwn_of_run_iff true 7 sampleTurns _ rfl⟩

/-- The result of the second one is sent on the channel of the first one's
context. -/
theorem not_sentToOwn_sampleTurns :
    ∃ worker, Transition.run step (createNew true 7) sampleTurns = some worker ∧
      (⟨some 2, 5, true⟩, ⟨0, 7⟩) ∈ worker.sent ∧
      worker.registered = [(⟨0, 7⟩, 1)] ∧ ¬ worker.SentToOwn := by
  refine ⟨_, rfl, by decide +kernel, by decide +kernel, fun h => ?_⟩
  have hsent := (h ⟨some 2, 5, true⟩ ⟨0, 7⟩ (by decide +kernel) 2).mpr rfl
  revert hsent
  decide +kernel

end WorkerChannels

end Tpool

end Async

end Kclpp
