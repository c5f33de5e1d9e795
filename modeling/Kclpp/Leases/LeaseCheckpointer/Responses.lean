import Kclpp.Leases.LeaseCheckpointer.Basic

/-!
# What a response makes of a checkpoint

`getCheckpoint` is two callbacks, one inside the other. That of
`LeaseManager::getLease` meets the response of the store: it passes an error on,
and has a `CHECK` for a row that is not a lease. That of `getCheckpoint` answers
the error it is passed and then goes on as if there had been none. Here both are
functions of the response, whatever the store makes of the request, and
`getCheckpoint_answeredOnce_iff` says which responses are answered as they should be.
-/

open OrderedMap

namespace Kclpp

namespace Leases

open Dynamo Util Lease Kinesis

/-- Reading each number in turn leaves `errno` as it was, so a row is accepted
when its key and its owner are there and each number can be read on its own. -/
theorem readable_iff_readNumber (errno : Errno) (item : Item) :
    Readable errno item ↔
      (∃ key, lookup item "leaseKey" = some key ∧ key.getS ≠ "") ∧
        lookup item "leaseOwner" ≠ none ∧
        ∀ name ∈ numberNames, ∃ number,
          readNumber name errno item = (.ok number, errno) := by
  have hreads : ∀ {name : String} {e e' : Errno} {number : Option UInt64},
      e = errno → readNumber name e item = (.ok number, e') →
        e' = errno ∧ readNumber name errno item = (.ok number, errno) := by
    intro name e e' number he h
    subst he
    have he' := errno_of_readNumber_eq_ok h
    exact ⟨he', he' ▸ h⟩
  constructor
  · rintro ⟨lease, errno', h⟩
    obtain ⟨key, owner, counter, switches, last, e₁, e₂, hkey, hne, howner,
      hcounter, hswitches, hlast, -⟩ := (fromDynamoDict_eq_ok_iff _ _ _ _).mp h
    obtain ⟨he₁, hcounter⟩ := hreads rfl hcounter
    obtain ⟨he₂, hswitches⟩ := hreads he₁ hswitches
    obtain ⟨-, hlast⟩ := hreads he₂ hlast
    refine ⟨⟨key, hkey, hne⟩, by rw [howner]; simp, ?_⟩
    intro name hname
    simp only [numberNames, List.mem_cons, List.not_mem_nil, or_false] at hname
    rcases hname with rfl | rfl | rfl
    · exact ⟨counter, hcounter⟩
    · exact ⟨switches, hswitches⟩
    · exact ⟨last, hlast⟩
  · rintro ⟨⟨key, hkey, hne⟩, howner, hnumbers⟩
    obtain ⟨owner, howner⟩ := Option.ne_none_iff_exists'.mp howner
    obtain ⟨counter, hcounter⟩ := hnumbers "leaseCounter" (by simp [numberNames])
    obtain ⟨switches, hswitches⟩ :=
      hnumbers "ownerSwitchesSinceCheckpoint" (by simp [numberNames])
    obtain ⟨last, hlast⟩ :=
      hnumbers "lastCounterIncrementNanoseconds" (by simp [numberNames])
    exact ⟨_, errno, (fromDynamoDict_eq_ok_iff _ _ _ _).mpr
      ⟨key, owner, counter, switches, last, errno, errno, hkey, hne, howner,
        hcounter, hswitches, hlast, rfl⟩⟩

/-- A number can be read when it is not there, is no number, or is the text of
one that fits. -/
theorem readNumber_eq_ok_iff (name : String) (errno : Errno) (item : Item) :
    (∃ number, readNumber name errno item = (.ok number, errno)) ↔
      ∀ found, lookup item name = some found →
        found.getN = "" ∨ ∃ n, safeStrToUll errno found.getN = (.ok n, errno) := by
  unfold readNumber
  cases lookup item name with
  | none => simp
  | some found =>
      by_cases hempty : found.getN = ""
      · simp [hempty]
      simp only [String.isEmpty_iff, hempty, if_false, Option.some.injEq,
        forall_eq', false_or]
      cases hread : safeStrToUll errno found.getN with
      | mk outcome e => cases outcome <;> simp

namespace LeaseManager

/-- The callback of `LeaseManager::getLease`; `none` where its `CHECK` fails. -/
def onGetItem (errno : Errno) (response : Except DynamoDBErrors Item) :
    Option (Except DynamoDBErrors Lease) :=
  match response with
  | .error e => some (.error e)
  | .ok item =>
      match fromDynamoDict errno item with
      | (.ok lease, _) => some (.ok lease)
      | (.error _, _) => none

theorem getLease_eq (manager : LeaseManager) (dynamo : Service) (errno : Errno)
    (key : LeaseKey) (tbl : Table) :
    manager.getLease dynamo errno key tbl =
      onGetItem errno (dynamo.getItem (manager.getLeaseRequest key) tbl) := rfl

theorem onGetItem_ok (errno : Errno) (item : Item) :
    (∃ lease, fromDynamoDict errno item = (.ok lease, errno) ∧
        onGetItem errno (.ok item) = some (.ok lease)) ∨
      (¬ Readable errno item ∧ onGetItem errno (.ok item) = none) := by
  unfold onGetItem
  cases hread : fromDynamoDict errno item with
  | mk outcome errno' =>
  cases outcome with
  | error e =>
      right
      refine ⟨?_, by simp only [hread]⟩
      rintro ⟨lease, errno'', hok⟩
      rw [hread] at hok
      cases hok
  | ok lease =>
      left
      rw [errno_of_fromDynamoDict_eq_ok hread]
      exact ⟨lease, rfl, by simp only [hread]⟩

end LeaseManager

namespace LeaseCheckpointer

open LeaseManager

/-- The callback that `getCheckpoint` passes to `LeaseManager::getLease`. There is
no return behind the answer to an error. -/
def onGetLease (outcome : Option (Except DynamoDBErrors Lease)) :
    GetCheckpointAnswer :=
  match outcome with
  | none => { answers := [], alive := false }
  | some (.error e) => { answers := [.error e], alive := false }
  | some (.ok lease) =>
      { answers := [.ok lease.getExtendedSequenceNumber], alive := true }

/-- `LeaseCheckpointer::getCheckpoint` with a store that responds to a request as
`getItem` says. -/
def getCheckpointFrom (manager : LeaseManager)
    (getItem : GetItemRequest → Except DynamoDBErrors Item) (errno : Errno)
    (shardID : ShardID) : GetCheckpointAnswer :=
  onGetLease (onGetItem errno (getItem (manager.getLeaseRequest ⟨shardID.value⟩)))

theorem getCheckpoint_eq_from (manager : LeaseManager) (dynamo : Service)
    (errno : Errno) (shardID : ShardID) (tbl : Table) :
    getCheckpoint manager dynamo errno shardID tbl =
      getCheckpointFrom manager (fun request => dynamo.getItem request tbl) errno
        shardID := rfl

/-- The callback is called once, with an error or with the checkpoint of the lease
that the response holds, and the process is still there. -/
def AnsweredOnce (errno : Errno) (response : Except DynamoDBErrors Item)
    (answer : GetCheckpointAnswer) : Prop :=
  answer.alive = true ∧ ∃ outcome, answer.answers = [outcome] ∧
    ∀ sequenceNumber, outcome = .ok sequenceNumber →
      ∃ item lease, response = .ok item ∧
        (fromDynamoDict errno item).1 = .ok lease ∧
        sequenceNumber = lease.getExtendedSequenceNumber

/-- What a response must be for its callbacks to answer: an item with a key, an
owner attribute, and no number whose text cannot be read. -/
def HoldsLease (errno : Errno) (response : Except DynamoDBErrors Item) : Prop :=
  ∃ item, response = .ok item ∧
    (∃ key, lookup item "leaseKey" = some key ∧ key.getS ≠ "") ∧
    lookup item "leaseOwner" ≠ none ∧
    ∀ name ∈ numberNames, ∀ found, lookup item name = some found →
      found.getN = "" ∨ ∃ n, safeStrToUll errno found.getN = (.ok n, errno)

theorem holdsLease_iff (errno : Errno) (response : Except DynamoDBErrors Item) :
    HoldsLease errno response ↔ ∃ item, response = .ok item ∧ Readable errno item := by
  simp only [HoldsLease, readable_iff_readNumber, readNumber_eq_ok_iff]

theorem answeredOnce_onGetLease_iff (errno : Errno)
    (response : Except DynamoDBErrors Item) :
    AnsweredOnce errno response (onGetLease (onGetItem errno response)) ↔
      HoldsLease errno response := by
  rw [holdsLease_iff]
  cases response with
  | error e =>
      refine iff_of_false ?_ ?_
      · rintro ⟨halive, -⟩
        cases halive
      · rintro ⟨item, hitem, -⟩
        cases hitem
  | ok item =>
      rcases onGetItem_ok errno item with ⟨lease, hread, hget⟩ | ⟨hnot, hget⟩
      · rw [hget]
        refine iff_of_true ⟨rfl, _, rfl, ?_⟩ ⟨item, rfl, lease, errno, hread⟩
        rintro sequenceNumber ⟨⟩
        exact ⟨item, lease, rfl, by rw [hread], rfl⟩
      · rw [hget]
        refine iff_of_false ?_ ?_
        · rintro ⟨halive, -⟩
          cases halive
        · rintro ⟨item', hitem, hreadable⟩
          cases hitem
          exact hnot hreadable

/-- `getCheckpoint` answers as it should exactly when the store responds with an
item that is a lease. -/
theorem getCheckpoint_answeredOnce_iff (manager : LeaseManager)
    (getItem : GetItemRequest → Except DynamoDBErrors Item) (errno : Errno)
    (shardID : ShardID) :
    AnsweredOnce errno (getItem (manager.getLeaseRequest ⟨shardID.value⟩))
        (getCheckpointFrom manager getItem errno shardID) ↔
      HoldsLease errno (getItem (manager.getLeaseRequest ⟨shardID.value⟩)) :=
  answeredOnce_onGetLease_iff errno _

/-- With the store that keeps the table: there is a row for the shard, and it is a
lease. -/
theorem answeredOnce_getCheckpoint_iff {manager : LeaseManager} {dynamo : Service}
    (hreach : dynamo.reaches (some manager.tableName) = true) (errno : Errno)
    (shardID : ShardID) (tbl : Table) :
    AnsweredOnce errno
        (dynamo.getItem (manager.getLeaseRequest ⟨shardID.value⟩) tbl)
        (getCheckpoint manager dynamo errno shardID tbl) ↔
      ∃ item, tbl.row shardID.value = some item ∧ Readable errno item := by
  have hget : dynamo.getItem (manager.getLeaseRequest ⟨shardID.value⟩) tbl =
      .ok ((tbl.row shardID.value).getD ∅) := by
    simp [getLeaseRequest, Service.getItem, Service.addresses, hreach, primaryKey,
      keyAttribute]
  rw [getCheckpoint_eq_from, getCheckpointFrom, answeredOnce_onGetLease_iff,
    holdsLease_iff, hget]
  cases tbl.row shardID.value with
  | none =>
      refine iff_of_false ?_ ?_
      · rintro ⟨item, hitem, hreadable⟩
        cases hitem
        obtain ⟨⟨key, hkey, -⟩, -⟩ := (readable_iff_readNumber _ _).mp hreadable
        simp at hkey
      · rintro ⟨item, hitem, -⟩
        cases hitem
  | some item => simp

/-- A shard whose lease has no row is not answered at all, and a throttled read is
answered once by a process that does not survive it. -/
theorem not_answeredOnce_sample :
    getCheckpoint sampleManager sampleDynamo 0 ⟨"shard-1"⟩ Table.empty =
        ⟨[], false⟩ ∧
      getCheckpointFrom sampleManager (fun _ => .error .throttling) 0 ⟨"shard-1"⟩ =
        ⟨[.error .throttling], false⟩ ∧
      ¬ AnsweredOnce 0
        (sampleDynamo.getItem (sampleManager.getLeaseRequest ⟨"shard-1"⟩) Table.empty)
        (getCheckpoint sampleManager sampleDynamo 0 ⟨"shard-1"⟩ Table.empty) ∧
      ¬ AnsweredOnce 0 (.error .throttling)
        (getCheckpointFrom sampleManager (fun _ => .error .throttling) 0
          ⟨"shard-1"⟩) := by
  have hmissing : getCheckpoint sampleManager sampleDynamo 0 ⟨"shard-1"⟩
      Table.empty = ⟨[], false⟩ := by decide +kernel
  refine ⟨hmissing, rfl, ?_, ?_⟩
  · rintro ⟨halive, -⟩
    rw [hmissing] at halive
    cases halive
  · rintro ⟨halive, -⟩
    cases halive

end LeaseCheckpointer

end Leases

end Kclpp
