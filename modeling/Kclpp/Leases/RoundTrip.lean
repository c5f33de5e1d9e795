import Kclpp.Leases.Lease

/-!
# Writing a lease and reading it back

`toDynamoDict` leaves out the owner of a lease that has none, and writes a zero
for a number that is not there. `fromDynamoDict` insists on the owner attribute,
and cannot tell such a zero from one that was there. `fromDynamoDict_toDynamoDict_iff`
says which leases come back as they were.
-/

open Std OrderedMap

namespace Kclpp

namespace Leases

open Clock Dynamo Util

namespace Lease

structure SameStored (lease lease' : Lease) : Prop where
  leaseKey : lease'.leaseKey = lease.leaseKey
  leaseOwner : lease'.leaseOwner = lease.leaseOwner
  checkpointID : lease'.checkpointID = lease.checkpointID
  subCheckpointID : lease'.subCheckpointID = lease.subCheckpointID
  leaseCounter : lease'.leaseCounter = lease.leaseCounter
  ownerSwitchesSinceCheckpoint :
    lease'.ownerSwitchesSinceCheckpoint = lease.ownerSwitchesSinceCheckpoint
  lastCounterIncrementNanoseconds :
    lease'.lastCounterIncrementNanoseconds = lease.lastCounterIncrementNanoseconds

/-- The number is there, and it is not the one that a leftover `ERANGE` makes
unreadable. -/
def NumberKept {c : UnsignedProxyClass} (errno : Errno)
    (field : Option (UnsignedProxy c)) : Prop :=
  ∃ number, field = some number ∧ ¬ (number.value = ULLONG_MAX ∧ errno = ERANGE)

/-- What `fromDynamoDict` reads from a numeric attribute that `toDynamoDict` has
written, where it can read it at all. -/
theorem eq_of_readNumber_printNumber {c : UnsignedProxyClass} {name : String}
    {dynamoDict : Item} {field : Option (UnsignedProxy c)}
    (h : lookup dynamoDict name = some (.n (printNumber field)))
    {errno errno' : Errno} {number : Option UInt64}
    (hread : readNumber name errno dynamoDict = (.ok number, errno')) :
    number = some (field.elim 0 fun n => n.value) ∧ errno' = errno ∧
      ¬ ((field.elim 0 fun n => n.value) = ULLONG_MAX ∧ errno = ERANGE) := by
  rw [printNumber_eq] at h
  rw [readNumber_of_lookup h] at hread
  split_ifs at hread with hlost
  · cases hread
  · cases hread
    exact ⟨rfl, rfl, hlost⟩

theorem readNumber_of_numberKept {c : UnsignedProxyClass} {name : String}
    {dynamoDict : Item} {field : Option (UnsignedProxy c)}
    (h : lookup dynamoDict name = some (.n (printNumber field)))
    {errno : Errno} (hkept : NumberKept errno field) :
    readNumber name errno dynamoDict =
      (.ok (field.map fun n => n.value), errno) := by
  obtain ⟨number, rfl, hlost⟩ := hkept
  have hprinted : lookup dynamoDict name = some (.n (printUll number.value)) := h
  rw [readNumber_of_lookup hprinted, if_neg hlost]
  rfl

theorem numberKept_of_map_eq {c : UnsignedProxyClass} {errno : Errno}
    {field : Option (UnsignedProxy c)} {number : Option UInt64}
    (hnumber : number = some (field.elim 0 fun n => n.value))
    (hlost : ¬ ((field.elim 0 fun n => n.value) = ULLONG_MAX ∧ errno = ERANGE))
    (hsame : number.map (fun n => (⟨n⟩ : UnsignedProxy c)) = field) :
    NumberKept errno field := by
  rw [hnumber] at hsame
  cases field with
  | none => cases hsame
  | some n => exact ⟨n, rfl, hlost⟩

/-- A string attribute that `toDynamoDict` has written is read back, also where
it is empty. -/
theorem map_getS_stringAttribute {c : StringProxyClass}
    (field : Option (StringProxy c)) :
    (stringAttribute field).map (fun v => (⟨v.getS⟩ : StringProxy c)) = field := by
  cases field <;> rfl

/-- A lease with a key and no empty owner is written and read back the same
exactly if it has an owner and its three numbers, none of them one that is
lost. -/
theorem fromDynamoDict_toDynamoDict_iff (errno : Errno) (lease : Lease)
    (hkey : lease.leaseKey.value ≠ "") (howner : lease.leaseOwner ≠ some ⟨""⟩) :
    (∃ lease' errno', fromDynamoDict errno lease.toDynamoDict =
        (.ok lease', errno') ∧ SameStored lease lease') ↔
      lease.leaseOwner ≠ none ∧ NumberKept errno lease.leaseCounter ∧
        NumberKept errno lease.ownerSwitchesSinceCheckpoint ∧
        NumberKept errno lease.lastCounterIncrementNanoseconds := by
  have hcounter : lookup lease.toDynamoDict "leaseCounter" =
      some (.n (printNumber lease.leaseCounter)) := by simp [lookup_toDynamoDict]
  have hswitches : lookup lease.toDynamoDict "ownerSwitchesSinceCheckpoint" =
      some (.n (printNumber lease.ownerSwitchesSinceCheckpoint)) := by
    simp [lookup_toDynamoDict]
  have hlast : lookup lease.toDynamoDict "lastCounterIncrementNanoseconds" =
      some (.n (printNumber lease.lastCounterIncrementNanoseconds)) := by
    simp [lookup_toDynamoDict]
  constructor
  · rintro ⟨lease', errno', hread, hsame⟩
    obtain ⟨key, owner, counter, switches, last, e₁, e₂, -, -, hread₀, hread₁,
      hread₂, hread₃, rfl⟩ := (fromDynamoDict_eq_ok_iff _ _ _ _).mp hread
    obtain ⟨hnumber₁, rfl, hlost₁⟩ := eq_of_readNumber_printNumber hcounter hread₁
    obtain ⟨hnumber₂, rfl, hlost₂⟩ := eq_of_readNumber_printNumber hswitches hread₂
    obtain ⟨hnumber₃, rfl, hlost₃⟩ := eq_of_readNumber_printNumber hlast hread₃
    refine ⟨?_, numberKept_of_map_eq hnumber₁ hlost₁ hsame.leaseCounter,
      numberKept_of_map_eq hnumber₂ hlost₂ hsame.ownerSwitchesSinceCheckpoint,
      numberKept_of_map_eq hnumber₃ hlost₃ hsame.lastCounterIncrementNanoseconds⟩
    intro hnone
    simp [lookup_toDynamoDict, hnone] at hread₀
  · rintro ⟨hsome, hkept₁, hkept₂, hkept₃⟩
    obtain ⟨owner, hlease⟩ := Option.ne_none_iff_exists'.mp hsome
    have hne : owner.value ≠ "" := by
      intro hempty
      refine howner ?_
      rw [hlease]
      exact congrArg some (StringProxy.ext hempty)
    refine ⟨_, errno, (fromDynamoDict_eq_ok_iff _ _ _ _).mpr
      ⟨.s lease.leaseKey.value, .s owner.value, _, _, _, errno, errno, ?_, hkey,
        ?_, readNumber_of_numberKept hcounter hkept₁,
        readNumber_of_numberKept hswitches hkept₂,
        readNumber_of_numberKept hlast hkept₃, rfl⟩, ?_⟩
    · simp [lookup_toDynamoDict]
    · simp [lookup_toDynamoDict, hlease, stringAttribute]
    · constructor
      · rfl
      · simp [AttributeValue.getS, hne, hlease]
      · simp [lookup_toDynamoDict, map_getS_stringAttribute]
      · simp [lookup_toDynamoDict, map_getS_stringAttribute]
      · simp [Function.comp_def]
      · simp [Function.comp_def]
      · simp [Function.comp_def]

def sampleStored : Lease where
  leaseKey := ⟨"shard-1"⟩
  leaseOwner := some ⟨"worker-a"⟩
  lastCounterIncrementNanoseconds := some ⟨7⟩
  leaseCounter := some ⟨403⟩
  checkpointID := some ⟨"1234"⟩
  ownerSwitchesSinceCheckpoint := some ⟨0⟩

theorem fromDynamoDict_toDynamoDict_sampleStored :
    ∃ lease' errno', fromDynamoDict 0 sampleStored.toDynamoDict =
      (.ok lease', errno') ∧ SameStored sampleStored lease' :=
  (fromDynamoDict_toDynamoDict_iff 0 sampleStored (by decide) (by decide)).mpr
    ⟨by decide, ⟨_, rfl, by decide⟩, ⟨_, rfl, by decide⟩, _, rfl, by decide⟩

/-- A lease that nobody owns is written without an owner and cannot be read
back. -/
theorem toDynamoDict_unowned_unreadable :
    ¬ ∃ lease' errno',
      fromDynamoDict 0 { sampleStored with leaseOwner := none }.toDynamoDict =
        (.ok lease', errno') ∧
      SameStored { sampleStored with leaseOwner := none } lease' := by
  rintro ⟨lease', errno', hread, -⟩
  have herror :
      (fromDynamoDict 0
          { sampleStored with leaseOwner := none }.toDynamoDict).1 =
        .error ⟨"missing 'leaseOwner'"⟩ := by
    decide +kernel
  rw [hread] at herror
  cases herror

end Lease

end Leases

end Kclpp
