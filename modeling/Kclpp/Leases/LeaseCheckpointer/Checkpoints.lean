import Kclpp.Leases.LeaseCheckpointer.Basic
import Kclpp.Transition.Run

/-!
# Checkpoints over whole runs

Any number of workers set checkpoints and renew, take and evict leases, each from
whatever its coordinator or its lease objects are at that moment.
`CheckpointStore` is the table with the checkpoints that were reported as set.
`Remembers` says what the two checkpoint attributes of a row hold after a run:
the sequence number that was set last, and the last sub-sequence number there
was, since a checkpoint without one leaves the old one in the row.
-/

open Std OrderedMap

namespace Kclpp

namespace Leases

open Clock Dynamo Util Lease Kinesis

open Transition (run)

/-- The table, and the checkpoints whose setting was reported to have succeeded,
newest first. -/
structure CheckpointStore where
  tbl : Table
  succeeded : List (LeaseKey × ExtendedSequenceNumber) := []

/-- What a worker does: it sets a checkpoint with the coordinator it has, or makes
a call of the lease manager. -/
inductive CheckpointStep where
  | setCheckpoint (coordinator : LeaseCoordinator) (now : NanosecondPoint)
      (refused : Option DynamoDBErrors) (params : SetCheckpointParams)
  | call (call : LeaseCall)

def LeaseCall.changesOwnership : LeaseCall → Bool
  | renewLease _ | takeLease _ _ | evictLease _ => true
  | _ => false

namespace CheckpointStore

def step (manager : LeaseManager) (dynamo : Service) (dchecks : Bool)
    (s : CheckpointStore) : CheckpointStep → Option CheckpointStore
  | .setCheckpoint coordinator now refused params =>
      (LeaseCheckpointer.setCheckpoint dchecks dynamo now refused coordinator
        params s.tbl).map fun answer =>
          { tbl := answer.2.1
            succeeded :=
              if answer.2.2 = .ok { succeeded := true } then
                (⟨params.shardID.value⟩, params.sequenceNumber) :: s.succeeded
              else s.succeeded }
  | .call call =>
      if call.changesOwnership then
        some { s with tbl := (call.perform manager dynamo s.tbl).1 }
      else none

/-- The checkpoints that were set for a lease, newest first. -/
def checkpointsOf (s : CheckpointStore) (key : LeaseKey) :
    List ExtendedSequenceNumber :=
  (s.succeeded.filter fun entry => entry.1 = key).map Prod.snd

end CheckpointStore

def latestCheckpoint (created : Lease)
    (checkpoints : List ExtendedSequenceNumber) : Option ExtendedSequenceNumber :=
  checkpoints.head?.or created.getExtendedSequenceNumber

def lastSubSequenceNumber (created : Lease)
    (checkpoints : List ExtendedSequenceNumber) : Option SubCheckpointID :=
  (checkpoints.findSome? fun number => number.subSequenceNumber).or
    created.subCheckpointID

/-- If the checkpoint set last has no sub-sequence number, none before has. -/
def SubSequenceKept (created : Lease) :
    List ExtendedSequenceNumber → Prop
  | [] => True
  | latest :: earlier =>
      latest.subSequenceNumber = none → created.subCheckpointID = none ∧
        ∀ number ∈ earlier, number.subSequenceNumber = none

/-- The row can be read: it has a key and an owner, and no number that a leftover
`ERANGE` makes unreadable. -/
def RowKept (errno : Errno) (tbl : Table) (key : LeaseKey) : Prop :=
  key.value ≠ "" ∧ attributeOf (tbl.row key.value) "leaseOwner" ≠ none ∧
    ∀ item, tbl.row key.value = some item → NumbersKept errno item

/-- What the row of a lease holds after the checkpoints that were set. -/
def Remembers (created : Lease) (checkpoints : List ExtendedSequenceNumber)
    (tbl : Table) : Prop :=
  ∃ item, tbl.row created.leaseKey.value = some item ∧ NumbersPrinted item ∧
    lookup item "checkpoint" = stringAttribute
      ((checkpoints.head?.map fun number => number.sequenceNumber).or
        created.checkpointID) ∧
    lookup item "checkpointSubSequenceNumber" =
      stringAttribute (lastSubSequenceNumber created checkpoints)

theorem lastSubSequenceNumber_cons (created : Lease)
    (number : ExtendedSequenceNumber)
    (checkpoints : List ExtendedSequenceNumber) :
    lastSubSequenceNumber created (number :: checkpoints) =
      number.subSequenceNumber.or (lastSubSequenceNumber created checkpoints) := by
  unfold lastSubSequenceNumber
  rw [List.findSome?_cons]
  cases number.subSequenceNumber <;> rfl

/-- What the row gives back is the checkpoint set last exactly if no older
sub-sequence number shows through. -/
theorem latestCheckpoint_eq_iff (created : Lease)
    (checkpoints : List ExtendedSequenceNumber) :
    latestCheckpoint created checkpoints =
        (((checkpoints.head?.map fun number => number.sequenceNumber).or
          created.checkpointID).map fun id =>
            ⟨id, lastSubSequenceNumber created checkpoints⟩) ↔
      SubSequenceKept created checkpoints := by
  cases checkpoints with
  | nil =>
      refine iff_of_true ?_ trivial
      simp [latestCheckpoint, lastSubSequenceNumber, getExtendedSequenceNumber_eq]
  | cons latest earlier =>
      rw [lastSubSequenceNumber_cons, SubSequenceKept]
      obtain ⟨sequenceNumber, subSequenceNumber⟩ := latest
      cases subSequenceNumber with
      | some number => simp [latestCheckpoint]
      | none =>
          simp [latestCheckpoint, lastSubSequenceNumber, eq_comm (a := none),
            and_comm]

theorem stringAttribute_or {c : StringProxyClass}
    (field field' : Option (StringProxy c)) :
    stringAttribute (field.or field') =
      (stringAttribute field).or (stringAttribute field') := by
  cases field <;> rfl

/-- A call that is accepted adds what it writes to what the row holds. -/
theorem Remembers.perform {manager : LeaseManager} {dynamo : Service}
    {created : Lease} {checkpoints checkpoints' : List ExtendedSequenceNumber}
    {call : LeaseCall} {tbl tbl' : Table} {result : CallResult}
    (h : Remembers created checkpoints tbl) (hupdate : call.isUpdate = true)
    (hkey : call.key = created.leaseKey.value)
    (hperform : call.perform manager dynamo tbl = (tbl', .ok result))
    (hcheckpoint : (checkpoints'.head?.map fun number =>
        number.sequenceNumber).or created.checkpointID =
      call.writtenCheckpoint.or ((checkpoints.head?.map fun number =>
        number.sequenceNumber).or created.checkpointID))
    (hsub : lastSubSequenceNumber created checkpoints' =
      call.writtenSubCheckpoint.or (lastSubSequenceNumber created checkpoints)) :
    Remembers created checkpoints' tbl' := by
  obtain ⟨item, hrow, hprinted, hheld, hheldSub⟩ := h
  obtain ⟨hwritten, hwrittenSub⟩ :=
    LeaseCall.checkpoint_of_perform hupdate hperform
  obtain ⟨-, -, htbl, -⟩ :=
    (LeaseCall.perform_eq_ok_iff_of_isUpdate _ _ hupdate _ _ _).mp hperform
  have hnew : call.newRow tbl = call.updatedRow tbl := if_pos hupdate
  have hrow' : tbl'.row created.leaseKey.value =
      some ((call.newRow tbl).insert keyAttribute (.s call.key)) := by
    rw [htbl, hnew, ← hkey]
    simp
  rw [hkey, hrow, hrow', attributeOf_some, attributeOf_some]
    at hwritten hwrittenSub
  refine ⟨_, hrow', ?_, ?_, ?_⟩
  · refine LeaseCall.numbersPrinted_newRow fun item' hitem' => ?_
    rw [hkey, hrow] at hitem'
    cases hitem'
    exact hprinted
  · rw [hwritten, hheld, ← stringAttribute_or, hcheckpoint]
  · rw [hwrittenSub, hheldSub, ← stringAttribute_or, hsub]

theorem Remembers.of_key_ne {created : Lease}
    {checkpoints : List ExtendedSequenceNumber} {tbl : Table}
    (h : Remembers created checkpoints tbl) (manager : LeaseManager)
    (dynamo : Service) (call : LeaseCall)
    (hkey : call.key ≠ created.leaseKey.value) :
    Remembers created checkpoints (call.perform manager dynamo tbl).1 := by
  unfold Remembers
  rw [LeaseCall.perform_row_of_ne manager dynamo call tbl hkey]
  exact h

theorem remembers_created (tbl : Table) (created : Lease) :
    Remembers created []
      (tbl.put created.leaseKey.value created.toDynamoDict) := by
  refine ⟨_, (Table.row_put _ _ _ _).trans (if_pos rfl), ?_, ?_, ?_⟩
  · refine @LeaseCall.numbersPrinted_newRow (.createLeaseIfNotExists created)
      Table.empty fun item hitem => ?_
    rw [Table.row_empty] at hitem
    cases hitem
  · rw [lookup_insert, if_neg (by decide), lookup_toDynamoDict]
    simp
  · rw [lookup_insert, if_neg (by decide), lookup_toDynamoDict]
    simp [lastSubSequenceNumber]

namespace CheckpointStore

theorem remembers_call {manager : LeaseManager} {dynamo : Service}
    {created : Lease} {checkpoints : List ExtendedSequenceNumber} {tbl : Table}
    (h : Remembers created checkpoints tbl) {call : LeaseCall}
    (hcall : call.changesOwnership = true) :
    Remembers created checkpoints (call.perform manager dynamo tbl).1 := by
  by_cases hkey : call.key = created.leaseKey.value
  case neg => exact h.of_key_ne manager dynamo call hkey
  cases hperform : call.perform manager dynamo tbl with
  | mk tbl' outcome =>
  cases outcome with
  | error e =>
      rw [LeaseCall.perform_fst_of_error hperform]
      exact h
  | ok result =>
      cases call with
      | createLeaseIfNotExists lease => cases hcall
      | updateLease lease => cases hcall
      | _ => exact h.perform rfl hkey hperform rfl rfl

/-- A checkpoint that is set for the lease is what the row holds then; one that is
set for another lease changes nothing. -/
theorem remembers_setCheckpoint {manager : LeaseManager} {dynamo : Service}
    {created existing : Lease} {s : CheckpointStore} {tbl' : Table}
    {params : SetCheckpointParams} {result : CallResult}
    (h : Remembers created (s.checkpointsOf created.leaseKey) s.tbl)
    (hkey : existing.leaseKey.value = params.shardID.value)
    (hperform : (LeaseCall.updateLease (LeaseCheckpointer.checkpointed existing
      params.sequenceNumber)).perform manager dynamo s.tbl =
        (tbl', .ok result)) :
    Remembers created
      (checkpointsOf
        { tbl := tbl'
          succeeded :=
            (⟨params.shardID.value⟩, params.sequenceNumber) :: s.succeeded }
        created.leaseKey) tbl' := by
  by_cases hsame : params.shardID.value = created.leaseKey.value
  · have hcons : checkpointsOf
        { tbl := tbl'
          succeeded :=
            (⟨params.shardID.value⟩, params.sequenceNumber) :: s.succeeded }
        created.leaseKey =
        params.sequenceNumber :: s.checkpointsOf created.leaseKey := by
      simp [checkpointsOf, hsame]
    rw [hcons]
    have hupdated : LeaseCall.key (.updateLease
        (LeaseCheckpointer.checkpointed existing params.sequenceNumber)) =
        created.leaseKey.value := hkey.trans hsame
    refine h.perform rfl hupdated hperform rfl ?_
    exact lastSubSequenceNumber_cons _ _ _
  · have hskip : checkpointsOf
        { tbl := tbl'
          succeeded :=
            (⟨params.shardID.value⟩, params.sequenceNumber) :: s.succeeded }
        created.leaseKey = s.checkpointsOf created.leaseKey := by
      have hne : (⟨params.shardID.value⟩ : LeaseKey) ≠ created.leaseKey :=
        fun heq => hsame (congrArg StringProxy.value heq)
      simp [checkpointsOf, hne]
    have hframe := h.of_key_ne manager dynamo
      (.updateLease (LeaseCheckpointer.checkpointed existing
        params.sequenceNumber)) (fun heq => hsame (hkey.symm.trans heq))
    rw [hskip]
    rw [hperform] at hframe
    exact hframe

theorem remembers_step {manager : LeaseManager} {dynamo : Service}
    {dchecks : Bool} {created : Lease} {s s' : CheckpointStore}
    {l : CheckpointStep}
    (h : Remembers created (s.checkpointsOf created.leaseKey) s.tbl)
    (hstep : step manager dynamo dchecks s l = some s') :
    Remembers created (s'.checkpointsOf created.leaseKey) s'.tbl := by
  cases l with
  | setCheckpoint coordinator now refused params =>
      obtain ⟨⟨coordinator', tbl', outcome⟩, hset, rfl⟩ :=
        Option.map_eq_some_iff.mp hstep
      rcases LeaseCheckpointer.setCheckpoint_cases manager hset with
        ⟨rfl, hnot⟩ | ⟨existing, hkey, hperform, rfl⟩
      · simp only [if_neg hnot]
        exact h
      · simp only
        exact remembers_setCheckpoint h hkey hperform
  | call call =>
      simp only [step] at hstep
      split_ifs at hstep with hcall
      cases hstep
      exact remembers_call h hcall

/-- After any run of checkpoints, renewals, takes and evictions, what
`getCheckpoint` answers for a lease is the checkpoint that was set last, or the
one the row was created with, exactly if the row can be read and no older
sub-sequence number shows through. -/
theorem getCheckpoint_of_run (manager : LeaseManager) (dynamo : Service)
    (dchecks : Bool) (created : Lease) (tbl₀ tbl : Table)
    (hcreate : (LeaseCall.createLeaseIfNotExists created).perform manager dynamo
      tbl₀ = (tbl, .ok ⟨true, some created⟩))
    (steps : List CheckpointStep) (s : CheckpointStore)
    (hr : run (step manager dynamo dchecks) { tbl := tbl } steps = some s)
    (errno : Errno) :
    LeaseCheckpointer.getCheckpoint manager dynamo errno
          ⟨created.leaseKey.value⟩ s.tbl =
        ⟨[.ok (latestCheckpoint created (s.checkpointsOf created.leaseKey))],
          true⟩ ↔
      RowKept errno s.tbl created.leaseKey ∧
        SubSequenceKept created (s.checkpointsOf created.leaseKey) := by
  have hnew : dynamo.reaches (some manager.tableName) = true ∧
      tbl = tbl₀.put created.leaseKey.value created.toDynamoDict := by
    obtain ⟨hreach, ⟨-, htbl, -⟩ | ⟨-, -, hres⟩⟩ :=
      (LeaseCall.perform_createLeaseIfNotExists_eq_ok_iff _ _ _ _ _ _).mp hcreate
    · exact ⟨hreach, htbl⟩
    · cases hres
  obtain ⟨item, hrow, hprinted, hcheckpoint, hsub⟩ :=
    Transition.run_invariant
      (I := fun s : CheckpointStore =>
        Remembers created (s.checkpointsOf created.leaseKey) s.tbl)
      (fun _ _ _ h hstep => remembers_step h hstep)
      (by rw [hnew.2]; exact remembers_created tbl₀ created) hr
  rw [LeaseCheckpointer.getCheckpoint_eq_iff hnew.1 errno hrow hprinted
    hcheckpoint hsub, latestCheckpoint_eq_iff]
  simp [RowKept, hrow]

/-- Worker a's coordinator, which holds the lease with this counter, and the
checkpoint it sets. -/
def sampleSetCheckpoint (counter : LeaseCounter)
    (sequenceNumber : ExtendedSequenceNumber) : CheckpointStep :=
  .setCheckpoint
    { running := true
      taker := { workerID := ⟨"worker-a"⟩ }
      renewer :=
        { workerID := ⟨"worker-a"⟩
          leaseDuration := ⟨10⟩
          ownedLeases := LeaseMap.empty.insert { sampleLease with
            leaseCounter := some counter
            lastCounterIncrementNanoseconds := some ⟨100⟩
            concurrencyToken := some ⟨"token"⟩ } } }
    ⟨105⟩ none ⟨⟨"shard-1"⟩, sequenceNumber, ⟨"token"⟩⟩

/-- A checkpoint without a sub-sequence number, a renewal, and a checkpoint with one. -/
def sampleCheckpoints : List CheckpointStep :=
  [sampleSetCheckpoint ⟨5⟩ ⟨⟨"1"⟩, none⟩,
    .call (.renewLease { sampleLease with leaseCounter := some ⟨6⟩ }),
    sampleSetCheckpoint ⟨7⟩ ⟨⟨"2"⟩, some ⟨"7"⟩⟩]

theorem getCheckpoint_of_run_sampleCheckpoints :
    ∃ s, run (step sampleManager sampleDynamo true) { tbl := sampleTable }
        sampleCheckpoints = some s ∧
      s.checkpointsOf sampleLease.leaseKey = [⟨⟨"2"⟩, some ⟨"7"⟩⟩, ⟨⟨"1"⟩, none⟩] ∧
      LeaseCheckpointer.getCheckpoint sampleManager sampleDynamo 0
          ⟨sampleLease.leaseKey.value⟩ s.tbl =
        ⟨[.ok (latestCheckpoint sampleLease
          (s.checkpointsOf sampleLease.leaseKey))], true⟩ := by
  refine ⟨_, rfl, by decide +kernel, (getCheckpoint_of_run sampleManager sampleDynamo true
    sampleLease Table.empty sampleTable ?_ sampleCheckpoints _ rfl 0).mpr
      ⟨⟨?_, ?_, ?_⟩, ?_⟩⟩
  · exact Prod.ext rfl (by decide +kernel)
  · decide
  · decide +kernel
  · rintro item - name - -
    decide
  · rintro ⟨⟩

/-- A checkpoint without a sub-sequence number is set after one with. Both are
reported to have succeeded, and the old sub-sequence number is read back with the
new sequence number. -/
theorem sampleSetCheckpoint_mixed :
    ∃ s, run (step sampleManager sampleDynamo true) { tbl := sampleTable }
        [sampleSetCheckpoint ⟨5⟩ ⟨⟨"1"⟩, some ⟨"7"⟩⟩,
          sampleSetCheckpoint ⟨6⟩ ⟨⟨"2"⟩, none⟩] = some s ∧
      latestCheckpoint sampleLease (s.checkpointsOf sampleLease.leaseKey) =
        some ⟨⟨"2"⟩, none⟩ ∧
      LeaseCheckpointer.getCheckpoint sampleManager sampleDynamo 0
          ⟨sampleLease.leaseKey.value⟩ s.tbl =
        ⟨[.ok (some ⟨⟨"2"⟩, some ⟨"7"⟩⟩)], true⟩ :=
  ⟨_, rfl, by decide +kernel, by decide +kernel⟩

end CheckpointStore

end Leases

end Kclpp
