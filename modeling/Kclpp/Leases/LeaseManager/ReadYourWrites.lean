import Kclpp.Histories.Versions
import Kclpp.Leases.LeaseManager.Calls
import Kclpp.Transition.Run

/-!
# Reads after writes

A store that keeps versions answers a consistent read from the latest one, and any
other from whichever it chooses. The manager is created with a parameter that asks
for consistent reads, and no request carries it. `readsOwnWrites_iff` says in which
runs the reads reflect the manager's own writes whatever the store chooses.
-/

open Histories

namespace Kclpp

/-- The error of `createShared`, with its text. -/
structure InvalidState where
  what : String
  deriving DecidableEq, Repr

namespace Leases

open Dynamo Util

/-- `LeaseManager::LeaseManagerParams`. -/
structure LeaseManagerParams where
  tableName : TableName
  consistentReads : Bool := false
  deriving DecidableEq, Repr

/-- The manager with these parameters. Its operations read the name of the table
and nothing else. -/
def LeaseManagerParams.manager (params : LeaseManagerParams) : LeaseManager where
  tableName := params.tableName

namespace LeaseManager

/-- `LeaseManager::createShared`, with a client and a context. -/
def createShared (params : LeaseManagerParams) :
    Except InvalidState LeaseManager :=
  if params.tableName.value.isEmpty then
    .error ⟨"Table name cannot be empty"⟩
  else .ok params.manager

def deleteLeaseUnconditionally (manager : LeaseManager) (dynamo : Service)
    (lease : Lease) (tbl : Table) :
    Table × Except DynamoDBErrors DeleteLeaseResult :=
  let answer := dynamo.deleteItem
    { tableName := some manager.tableName, key := makeLeaseKey lease } tbl
  (answer.1, handleDeleteResponse answer.2)

end LeaseManager

/-- What happens at the store: a call of the manager, or a write of somebody else. -/
inductive StoreEvent where
  | call (call : LeaseCall)
  | deleteLeaseCAS (lease : Lease)
  | deleteLeaseUnconditionally (lease : Lease)
  | otherWrite (write : Table → Table)
  | getLease (errno : Errno) (key : LeaseKey)
  | listLeases (errno : Errno) (order : List String)

inductive ReadAnswer where
  | lease (answer : Option (Except DynamoDBErrors Lease))
  | leases (answer : Except DynamoDBErrors (List Lease))
  deriving DecidableEq

/-- What a read answers, and the number of the version it is answered from. -/
structure Reading where
  version : ℕ
  answer : ReadAnswer
  deriving DecidableEq

abbrev TableVersions := Versions Table

namespace StoreEvent

/-- The table that a call of the manager leaves where it succeeds. -/
def written (manager : LeaseManager) (dynamo : Service) (tbl : Table) :
    StoreEvent → Option Table
  | call leaseCall =>
      match leaseCall.perform manager dynamo tbl with
      | (tbl', .ok ⟨true, _⟩) => some tbl'
      | _ => none
  | deleteLeaseCAS lease =>
      match manager.deleteLeaseCAS dynamo lease tbl with
      | (tbl', .ok _) => some tbl'
      | (_, .error _) => none
  | deleteLeaseUnconditionally lease =>
      match manager.deleteLeaseUnconditionally dynamo lease tbl with
      | (tbl', .ok _) => some tbl'
      | (_, .error _) => none
  | otherWrite write => some (write tbl)
  | getLease _ _ | listLeases _ _ => none

def step (manager : LeaseManager) (dynamo : Service) (versions : TableVersions)
    (event : StoreEvent) : Option TableVersions :=
  some ((event.written manager dynamo versions.latest).elim versions versions.commit)

/-- The key of an operation whose effect later reads are to reflect. -/
def ownKey : StoreEvent → Option String
  | call (.updateLease _) => none
  | call leaseCall => some leaseCall.key
  | deleteLeaseCAS lease => some lease.leaseKey.value
  | deleteLeaseUnconditionally lease => some lease.leaseKey.value
  | otherWrite _ | getLease _ _ | listLeases _ _ => none

def consistentRead (manager : LeaseManager) : StoreEvent → Bool
  | getLease _ key => (manager.getLeaseRequest key).consistentRead
  | listLeases _ _ => manager.listLeasesRequest.consistentRead
  | _ => true

def concerns : StoreEvent → String → Bool
  | getLease _ key, k => key.value = k
  | listLeases _ _, _ => true
  | _, _ => false

def answerFrom (manager : LeaseManager) (dynamo : Service) (tbl : Table) :
    StoreEvent → Option ReadAnswer
  | getLease errno key => some (.lease (manager.getLease dynamo errno key tbl))
  | listLeases errno order =>
      some (.leases (manager.listLeases dynamo order errno tbl))
  | _ => none

def readingOf (manager : LeaseManager) (dynamo : Service) (n : ℕ) (tbl : Table)
    (event : StoreEvent) : Option Reading :=
  (event.answerFrom manager dynamo tbl).map (Reading.mk n)

/-- A read, with the version that the store chooses for it. -/
def reading (manager : LeaseManager) (dynamo : Service) (versions : TableVersions)
    (choice : ℕ) (event : StoreEvent) : Option Reading :=
  let n := versions.served (event.consistentRead manager) choice
  event.readingOf manager dynamo n (versions.value n)

open Transition (run run_append)

/-- In the run of `events`, the event after `before` is an operation of the manager
that succeeds and leaves the versions `t`. The event after `between` is `read`, which
concerns the key and meets the versions `u`. -/
def ReadBack (manager : LeaseManager) (dynamo : Service) (versions : TableVersions)
    (events before between : List StoreEvent) (read : StoreEvent)
    (t u : TableVersions) : Prop :=
  ∃ write after s key, events = before ++ write :: (between ++ read :: after) ∧
    run (step manager dynamo) versions before = some s ∧
    write.ownKey = some key ∧
    (write.written manager dynamo s.latest).isSome ∧
    step manager dynamo s write = some t ∧
    run (step manager dynamo) t between = some u ∧
    read.concerns key = true

/-- Where the store answers the `n`-th event from the version that `choices n` chooses,
a read of what the manager has written is a read of the table as the write left it, or
as it was some time between the write and the read. -/
def ReadsOwnWrites (manager : LeaseManager) (dynamo : Service)
    (versions : TableVersions) (events : List StoreEvent) (choices : ℕ → ℕ) : Prop :=
  ∀ before between read t u,
    ReadBack manager dynamo versions events before between read t u →
    ∃ seen unseen v, between = seen ++ unseen ∧
      run (step manager dynamo) t seen = some v ∧
      read.reading manager dynamo u (choices (before.length + 1 + between.length)) =
        read.readingOf manager dynamo v.number v.latest

/-- What an event does to the versions: nothing, or it commits one. -/
theorem step_cases {manager : LeaseManager} {dynamo : Service}
    {s t : TableVersions} {event : StoreEvent}
    (h : step manager dynamo s event = some t) :
    t = s ∨ ∃ tbl, t = s.commit tbl := by
  unfold step at h
  cases hwritten : event.written manager dynamo s.latest with
  | none =>
      rw [hwritten] at h
      cases h
      exact .inl rfl
  | some tbl =>
      rw [hwritten] at h
      cases h
      exact .inr ⟨tbl, rfl⟩

theorem number_pos_of_written {manager : LeaseManager} {dynamo : Service}
    {s t : TableVersions} {event : StoreEvent}
    (hwritten : (event.written manager dynamo s.latest).isSome)
    (h : step manager dynamo s event = some t) : 0 < t.number := by
  obtain ⟨tbl, htbl⟩ := Option.isSome_iff_exists.mp hwritten
  rw [step, htbl] at h
  cases h
  rw [Option.elim_some, Versions.number_commit]
  exact Nat.succ_pos _

theorem number_le_of_run {manager : LeaseManager} {dynamo : Service}
    {s t : TableVersions} {events : List StoreEvent}
    (h : run (step manager dynamo) s events = some t) : s.number ≤ t.number := by
  refine Transition.run_relation (R := fun s t : TableVersions => s.number ≤ t.number)
    (fun _ => le_rfl) (fun _ _ _ => le_trans) (fun s event t hstep => ?_) h
  rcases step_cases hstep with rfl | ⟨tbl, rfl⟩
  · exact le_rfl
  · rw [Versions.number_commit]
    exact Nat.le_succ _

/-- The versions from a time on are those that were the latest one at some time after
it. -/
theorem exists_run_of_number_le {manager : LeaseManager} {dynamo : Service}
    {t u : TableVersions} {between : List StoreEvent}
    (h : run (step manager dynamo) t between = some u) {n : ℕ}
    (hle : t.number ≤ n) (hge : n ≤ u.number) :
    ∃ seen unseen v, between = seen ++ unseen ∧
      run (step manager dynamo) t seen = some v ∧ v.number = n ∧
      v.latest = u.value n := by
  induction between using List.reverseRecOn generalizing u with
  | nil =>
      cases h
      obtain rfl := le_antisymm hle hge
      exact ⟨[], [], t, rfl, rfl, rfl, t.value_number.symm⟩
  | append_singleton between event ih =>
      have hall := h
      rw [run_append, Option.bind_eq_some_iff] at h
      obtain ⟨u', hu', hlast⟩ := h
      obtain ⟨u'', hstep, hend⟩ := (Transition.run_cons_eq_some_iff _ _ _ _ _).mp hlast
      cases hend
      by_cases hn : n ≤ u'.number
      · obtain ⟨seen, unseen, v, rfl, hv, hnumber, hlatest⟩ := ih hu' hn
        refine ⟨seen, unseen ++ [event], v, List.append_assoc _ _ _, hv, hnumber, ?_⟩
        rcases step_cases hstep with rfl | ⟨tbl, rfl⟩
        · exact hlatest
        · rw [hlatest, u'.value_commit_of_le tbl hn]
      -- the version is the one that the last event commits
      · have hnumber : u.number = n := by
          rcases step_cases hstep with rfl | ⟨tbl, rfl⟩
          · exact absurd hge hn
          · exact le_antisymm (Nat.succ_le_of_lt (not_le.mp hn)) hge
        refine ⟨between ++ [event], [], u, (List.append_nil _).symm, hall, hnumber, ?_⟩
        rw [← hnumber, Versions.value_number]

theorem exists_answerFrom (manager : LeaseManager) (dynamo : Service) {read : StoreEvent}
    {key : String} (h : read.concerns key = true) (tbl : Table) :
    ∃ answer, read.answerFrom manager dynamo tbl = some answer := by
  cases read with
  | getLease errno k => exact ⟨_, rfl⟩
  | listLeases errno order => exact ⟨_, rfl⟩
  | _ => cases h

theorem version_eq_of_readingOf {manager : LeaseManager} {dynamo : Service}
    {read : StoreEvent} {key : String} (h : read.concerns key = true) {m n : ℕ}
    {tbl tbl' : Table}
    (heq : read.readingOf manager dynamo m tbl = read.readingOf manager dynamo n tbl') :
    m = n := by
  obtain ⟨a, ha⟩ := exists_answerFrom manager dynamo h tbl
  obtain ⟨b, hb⟩ := exists_answerFrom manager dynamo h tbl'
  rw [readingOf, readingOf, ha, hb] at heq
  cases heq
  rfl

/-- Whatever versions the store chooses, the reads reflect the manager's own writes:
this is so exactly for the runs in which every read back of such a write asks for a
consistent read. -/
theorem readsOwnWrites_iff (params : LeaseManagerParams) (dynamo : Service)
    (versions : TableVersions) (events : List StoreEvent) :
    (∀ choices, ReadsOwnWrites params.manager dynamo versions events choices) ↔
      ∀ before between read t u,
        ReadBack params.manager dynamo versions events before between read t u →
          read.consistentRead params.manager = true := by
  constructor
  · intro h before between read t u hback
    have ⟨write, after, s, key, _, _, _, hwritten, ht, hu, hconcerns⟩ := hback
    by_contra hconsistent
    -- the store chooses the first version of all
    obtain ⟨seen, unseen, v, -, hv, hreading⟩ := h (fun _ => 0) before between read t u hback
    have hnumber := version_eq_of_readingOf hconcerns hreading
    rw [Bool.eq_false_of_not_eq_true hconsistent, Versions.served_false,
      Nat.zero_min] at hnumber
    have hpos := (number_pos_of_written hwritten ht).trans_le (number_le_of_run hv)
    exact hpos.ne hnumber
  · intro h choices before between read t u hback
    have ⟨write, after, s, key, _, _, _, _, _, hu, _⟩ := hback
    obtain ⟨seen, unseen, v, hsplit, hv, hnumber, hlatest⟩ :=
      exists_run_of_number_le hu (number_le_of_run hu) le_rfl
    refine ⟨seen, unseen, v, hsplit, hv, ?_⟩
    rw [reading, h before between read t u hback, Versions.served_true, hnumber, hlatest]

/-- No request asks for a consistent read, with whatever parameters the manager was
created. -/
theorem consistentRead_eq_false (params : LeaseManagerParams) {read : StoreEvent}
    {key : String} (h : read.concerns key = true) :
    read.consistentRead params.manager = false := by
  cases read with
  | getLease errno k => rfl
  | listLeases errno order => rfl
  | _ => cases h

/-- The parameters of the functional tests: consistent reads are asked for. -/
def sampleParams : LeaseManagerParams := ⟨⟨"leases"⟩, true⟩

def sampleReadBack : List StoreEvent :=
  [call (.takeLease sampleLease ⟨"worker-b"⟩), getLease 0 sampleLease.leaseKey]

def sampleTaken : TableVersions :=
  Versions.commit { latest := sampleTable }
    ((LeaseCall.takeLease sampleLease ⟨"worker-b"⟩).perform sampleParams.manager
      sampleDynamo sampleTable).1

/-- Answered from the version before the take, the read shows the owner from whom the
lease was taken. -/
theorem not_readsOwnWrites_sampleReadBack :
    sampleParams.consistentReads = true ∧
      LeaseManager.createShared sampleParams = .ok sampleParams.manager ∧
      (getLease 0 sampleLease.leaseKey).reading sampleParams.manager sampleDynamo
        sampleTaken 0 = some ⟨0, .lease (some (.ok { sampleLease with
          lastCounterIncrementNanoseconds := some ⟨0⟩
          ownerSwitchesSinceCheckpoint := some ⟨0⟩ }))⟩ ∧
      ¬ ∀ choices, ReadsOwnWrites sampleParams.manager sampleDynamo
        { latest := sampleTable } sampleReadBack choices := by
  refine ⟨rfl, by decide, by decide +kernel, fun h => ?_⟩
  have hconcerns : (getLease 0 sampleLease.leaseKey).concerns
      sampleLease.leaseKey.value = true := by decide
  have hback : ReadBack sampleParams.manager sampleDynamo { latest := sampleTable }
      sampleReadBack [] [] (getLease 0 sampleLease.leaseKey) sampleTaken sampleTaken :=
    ⟨call (.takeLease sampleLease ⟨"worker-b"⟩), [], _, _, rfl, rfl, rfl,
      by decide +kernel, rfl, rfl, hconcerns⟩
  obtain ⟨seen, unseen, v, hsplit, hv, hreading⟩ := h (fun _ => 0) _ _ _ _ _ hback
  obtain ⟨rfl, rfl⟩ := List.append_eq_nil_iff.mp hsplit.symm
  cases hv
  exact absurd (version_eq_of_readingOf hconcerns hreading) (by decide)

end StoreEvent

end Leases

end Kclpp
