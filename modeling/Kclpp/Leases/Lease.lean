import Kclpp.Dynamo.Item
import Kclpp.Util.SafeStrToUll

/-!
# Leases

`Lease` is `Lease::LeaseState`: the class holds nothing else, and a lease is
never changed once it is built, so a shared pointer to one is its value. The
parent shard ids are left out, since no function reads them. `fromDynamoDict`
and `toDynamoDict` are the two directions of the row format; the three numeric
attributes are read and written in the same way and share `readNumber` and
`printNumber`.
-/

open Std OrderedMap

namespace Kclpp

namespace Leases

open Clock Dynamo Util

/-- `ExtendedSequenceNumber`. -/
structure ExtendedSequenceNumber where
  sequenceNumber : CheckpointID := ⟨""⟩
  subSequenceNumber : Option SubCheckpointID := none
  deriving DecidableEq, Repr, Inhabited

/-- `Lease::LeaseState`. -/
@[ext] structure Lease where
  leaseKey : LeaseKey
  leaseOwner : Option LeaseOwner := none
  concurrencyToken : Option ConcurrencyToken := none
  lastCounterIncrementNanoseconds : Option NanosecondPoint := none
  leaseCounter : Option LeaseCounter := none
  checkpointID : Option CheckpointID := none
  subCheckpointID : Option SubCheckpointID := none
  ownerSwitchesSinceCheckpoint : Option NumberOfLeaseSwitches := none
  deriving DecidableEq, Repr, Inhabited

namespace Lease

/-- `Lease::getMaxLeaseAge`: 365 days. -/
def getMaxLeaseAge : NanosecondDuration :=
  let secsPerDay : UInt64 := 60 * 60 * 24
  let nDays : UInt64 := 365
  let nanosPerSec : UInt64 := 1000000000
  ⟨secsPerDay * nDays * nanosPerSec⟩

/-- `Lease::isExpired`. The age is an unsigned difference and wraps. -/
def isExpired (lease : Lease) (leaseDuration : NanosecondDuration)
    (asOf : NanosecondPoint) : Bool :=
  match lease.lastCounterIncrementNanoseconds with
  | none => true
  | some last =>
      let age := asOf.value - last.value
      if age > getMaxLeaseAge.value then true
      else age > leaseDuration.value

/-- `Lease::copyWithNewConcurrencyToken`, which copies the token it finds. -/
def copyWithNewConcurrencyToken (lease : Lease) : Lease := lease

def copySharedWithIncrementedCounter (lease : Lease) : Lease :=
  match lease.leaseCounter with
  | some counter => { lease with leaseCounter := some ⟨1 + counter.value⟩ }
  | none => { lease with leaseCounter := some ⟨1⟩ }

def getExtendedSequenceNumber (lease : Lease) : Option ExtendedSequenceNumber :=
  match lease.checkpointID with
  | some checkpointID =>
      match lease.subCheckpointID with
      | some subCheckpointID => some ⟨checkpointID, some subCheckpointID⟩
      | none => some ⟨checkpointID, none⟩
  | none => none

theorem getExtendedSequenceNumber_eq (lease : Lease) :
    lease.getExtendedSequenceNumber =
      lease.checkpointID.map fun checkpointID =>
        ⟨checkpointID, lease.subCheckpointID⟩ := by
  unfold getExtendedSequenceNumber
  cases lease.checkpointID <;> cases lease.subCheckpointID <;> rfl

/-- A numeric attribute of a row: zero when it is missing, absent when it is
not a number. -/
def readNumber (name : String) (errno : Errno) (dynamoDict : Item) :
    Except DeserializationError (Option UInt64) × Errno :=
  match lookup dynamoDict name with
  | none => (.ok (some 0), errno)
  | some found =>
      let numStr := found.getN
      if numStr.isEmpty then (.ok none, errno)
      else
        match safeStrToUll errno numStr with
        | (.ok converted, errno') => (.ok (some converted), errno')
        | (.error _, errno') =>
            (.error ⟨"couldn't read " ++ name ++ " as int: " ++ numStr⟩, errno')

/-- `Lease::fromDynamoDict`, with the `errno` it finds and the one it leaves. -/
def fromDynamoDict (errno : Errno) (dynamoDict : Item) :
    Except DeserializationError Lease × Errno :=
  match lookup dynamoDict "leaseKey" with
  | none => (.error ⟨"Missing 'leaseKey' attribute."⟩, errno)
  | some key =>
  if key.getS.isEmpty then (.error ⟨"non-string-valued 'leaseKey'"⟩, errno)
  else
  match lookup dynamoDict "leaseOwner" with
  | none => (.error ⟨"missing 'leaseOwner'"⟩, errno)
  | some owner =>
  match readNumber "leaseCounter" errno dynamoDict with
  | (.error e, errno) => (.error e, errno)
  | (.ok counter, errno) =>
  match readNumber "ownerSwitchesSinceCheckpoint" errno dynamoDict with
  | (.error e, errno) => (.error e, errno)
  | (.ok switches, errno) =>
  match readNumber "lastCounterIncrementNanoseconds" errno dynamoDict with
  | (.error e, errno) => (.error e, errno)
  | (.ok last, errno) =>
    (.ok
      { leaseKey := ⟨key.getS⟩
        leaseOwner := if owner.getS.isEmpty then none else some ⟨owner.getS⟩
        lastCounterIncrementNanoseconds := last.map fun n => ⟨n⟩
        leaseCounter := counter.map fun n => ⟨n⟩
        checkpointID := (lookup dynamoDict "checkpoint").map fun v => ⟨v.getS⟩
        subCheckpointID :=
          (lookup dynamoDict "checkpointSubSequenceNumber").map fun v => ⟨v.getS⟩
        ownerSwitchesSinceCheckpoint := switches.map fun n => ⟨n⟩ }, errno)

theorem readNumber_of_lookup {name : String} {dynamoDict : Item} {n : UInt64}
    (h : lookup dynamoDict name = some (.n (printUll n))) (errno : Errno) :
    readNumber name errno dynamoDict =
      if n = ULLONG_MAX ∧ errno = ERANGE then
        (.error ⟨"couldn't read " ++ name ++ " as int: " ++ printUll n⟩, errno)
      else (.ok (some n), errno) := by
  have hempty : (printUll n).isEmpty = false := by
    simp [printUll_ne_empty n]
  rw [readNumber, h]
  simp only [AttributeValue.getN, hempty, safeStrToUll_printUll]
  split_ifs with hlost <;> simp_all

theorem errno_of_readNumber_eq_ok {name : String} {errno errno' : Errno}
    {dynamoDict : Item} {number : Option UInt64}
    (h : readNumber name errno dynamoDict = (.ok number, errno')) :
    errno' = errno := by
  unfold readNumber at h
  cases hfound : lookup dynamoDict name with
  | none =>
      rw [hfound] at h
      cases h
      rfl
  | some found =>
      rw [hfound] at h
      dsimp only at h
      split_ifs at h with hempty
      · cases h
        rfl
      · cases hread : safeStrToUll errno found.getN with
        | mk outcome e =>
            rw [hread] at h
            cases outcome with
            | error err => cases h
            | ok n =>
                cases h
                exact errno_of_safeStrToUll_eq_ok hread

/-- Whether a number can be read from a row does not depend on the other
attributes, and reading it is all that `fromDynamoDict` does with it: a lease is
read exactly when the key and the owner are there and the three numbers can be
read, each with the `errno` that the one before has left. -/
theorem fromDynamoDict_eq_ok_iff (errno errno' : Errno) (dynamoDict : Item)
    (lease : Lease) :
    fromDynamoDict errno dynamoDict = (.ok lease, errno') ↔
      ∃ key owner counter switches last e₁ e₂,
        lookup dynamoDict "leaseKey" = some key ∧ key.getS ≠ "" ∧
        lookup dynamoDict "leaseOwner" = some owner ∧
        readNumber "leaseCounter" errno dynamoDict = (.ok counter, e₁) ∧
        readNumber "ownerSwitchesSinceCheckpoint" e₁ dynamoDict =
          (.ok switches, e₂) ∧
        readNumber "lastCounterIncrementNanoseconds" e₂ dynamoDict =
          (.ok last, errno') ∧
        lease =
          { leaseKey := ⟨key.getS⟩
            leaseOwner :=
              if owner.getS.isEmpty then none else some ⟨owner.getS⟩
            lastCounterIncrementNanoseconds := last.map fun n => ⟨n⟩
            leaseCounter := counter.map fun n => ⟨n⟩
            checkpointID :=
              (lookup dynamoDict "checkpoint").map fun v => ⟨v.getS⟩
            subCheckpointID :=
              (lookup dynamoDict "checkpointSubSequenceNumber").map
                fun v => ⟨v.getS⟩
            ownerSwitchesSinceCheckpoint := switches.map fun n => ⟨n⟩ } := by
  unfold fromDynamoDict
  cases hkey : lookup dynamoDict "leaseKey" with
  | none => simp
  | some key =>
  by_cases hempty : key.getS = ""
  · simp [hempty]
  cases howner : lookup dynamoDict "leaseOwner" with
  | none => simp [hempty]
  | some owner =>
  obtain ⟨counter, e₁⟩ := readNumber "leaseCounter" errno dynamoDict
  cases counter with
  | error e => simp [hempty]
  | ok counter =>
  cases hswitches : readNumber "ownerSwitchesSinceCheckpoint" e₁ dynamoDict with
  | mk switches e₂ =>
  cases switches with
  | error e => simp [hempty, hswitches]
  | ok switches =>
  cases hlast : readNumber "lastCounterIncrementNanoseconds" e₂ dynamoDict with
  | mk last e₃ =>
  cases last with
  | error e => simp [hempty, hswitches, hlast]
  | ok last =>
      simp only [String.isEmpty_iff, hempty, if_false, hswitches, hlast,
        Prod.mk.injEq, Except.ok.injEq]
      constructor
      · rintro ⟨rfl, rfl⟩
        exact ⟨key, owner, counter, switches, last, e₁, e₂, rfl, hempty, rfl,
          ⟨rfl, rfl⟩, hswitches, hlast, by simp⟩
      · rintro ⟨key', owner', counter', switches', last', e₁', e₂', hk, -, ho,
          ⟨rfl, rfl⟩, hs, hl, rfl⟩
        cases hk
        cases ho
        rw [hswitches] at hs
        cases hs
        rw [hlast] at hl
        cases hl
        simp

theorem errno_of_fromDynamoDict_eq_ok {errno errno' : Errno} {dynamoDict : Item}
    {lease : Lease} (h : fromDynamoDict errno dynamoDict = (.ok lease, errno')) :
    errno' = errno := by
  obtain ⟨_, _, _, _, _, e₁, e₂, -, -, -, hcounter, hswitches, hlast, -⟩ :=
    (fromDynamoDict_eq_ok_iff _ _ _ _).mp h
  rw [errno_of_readNumber_eq_ok hlast, errno_of_readNumber_eq_ok hswitches,
    errno_of_readNumber_eq_ok hcounter]

def insertString {c : StringProxyClass} (result : Item) (name : String) :
    Option (StringProxy c) → Item
  | some value => result.insertIfNew name (.s value.value)
  | none => result

/-- The text of a numeric attribute: zero when it is absent. -/
def printNumber {c : UnsignedProxyClass} : Option (UnsignedProxy c) → String
  | some n => printUll n.value
  | none => "0"

def toDynamoDict (lease : Lease) : Item :=
  let result : Item := (∅ : Item).insert "leaseKey" (.s lease.leaseKey.value)
  let result := insertString result "leaseOwner" lease.leaseOwner
  let result := insertString result "checkpoint" lease.checkpointID
  let result :=
    insertString result "checkpointSubSequenceNumber" lease.subCheckpointID
  let result :=
    result.insertIfNew "leaseCounter" (.n (printNumber lease.leaseCounter))
  let result := result.insertIfNew "ownerSwitchesSinceCheckpoint"
    (.n (printNumber lease.ownerSwitchesSinceCheckpoint))
  result.insertIfNew "lastCounterIncrementNanoseconds"
    (.n (printNumber lease.lastCounterIncrementNanoseconds))

def stringAttribute {c : StringProxyClass} (field : Option (StringProxy c)) :
    Option AttributeValue := field.map fun v => .s v.value

@[simp] theorem stringAttribute_none {c : StringProxyClass} :
    stringAttribute (none : Option (StringProxy c)) = none := rfl

@[simp] theorem lookup_insertString {c : StringProxyClass} (result : Item)
    (name a : String) (field : Option (StringProxy c)) :
    lookup (insertString result name field) a =
      if name = a ∧ lookup result name = none then stringAttribute field
      else lookup result a := by
  have h := lookup_elim_insertIfNew result name a field fun v => .s v.value
  cases field <;> exact h

theorem lookup_toDynamoDict (lease : Lease) (name : String) :
    lookup (toDynamoDict lease) name =
      if "lastCounterIncrementNanoseconds" = name then
        some (.n (printNumber lease.lastCounterIncrementNanoseconds))
      else if "ownerSwitchesSinceCheckpoint" = name then
        some (.n (printNumber lease.ownerSwitchesSinceCheckpoint))
      else if "leaseCounter" = name then
        some (.n (printNumber lease.leaseCounter))
      else if "checkpointSubSequenceNumber" = name then
        stringAttribute lease.subCheckpointID
      else if "checkpoint" = name then stringAttribute lease.checkpointID
      else if "leaseOwner" = name then stringAttribute lease.leaseOwner
      else if "leaseKey" = name then some (.s lease.leaseKey.value)
      else none := by
  simp [toDynamoDict]

theorem printNumber_eq {c : UnsignedProxyClass}
    (field : Option (UnsignedProxy c)) :
    printNumber field = printUll (field.elim 0 fun n => n.value) := by
  cases field with
  | none => exact (by decide : "0" = printUll 0)
  | some n => rfl

theorem isExpired_eq_false_iff (lease : Lease)
    (leaseDuration : NanosecondDuration) (asOf : NanosecondPoint) :
    lease.isExpired leaseDuration asOf = false ↔
      ∃ last, lease.lastCounterIncrementNanoseconds = some last ∧
        asOf.value - last.value ≤ getMaxLeaseAge.value ∧
        asOf.value - last.value ≤ leaseDuration.value := by
  unfold isExpired
  cases lease.lastCounterIncrementNanoseconds with
  | none => simp
  | some last => simp [UInt64.not_lt]

/-- A lease with an increment time is expired when the unsigned difference is above
the smaller of the two limits. -/
theorem isExpired_iff {lease : Lease} {last : NanosecondPoint}
    (hlast : lease.lastCounterIncrementNanoseconds = some last)
    (leaseDuration : NanosecondDuration) (asOf : NanosecondPoint) :
    lease.isExpired leaseDuration asOf = true ↔
      min leaseDuration.value.toNat getMaxLeaseAge.value.toNat <
        (asOf.value - last.value).toNat := by
  rw [← not_iff_not, Bool.not_eq_true, isExpired_eq_false_iff]
  simp [hlast, UInt64.le_iff_toNat_le, and_comm]

/-- From its increment time on, the age is what has passed since then. -/
theorem isExpired_iff_of_le {lease : Lease} {last : NanosecondPoint}
    (hlast : lease.lastCounterIncrementNanoseconds = some last)
    (leaseDuration : NanosecondDuration) {asOf : NanosecondPoint}
    (hle : last.value ≤ asOf.value) :
    lease.isExpired leaseDuration asOf = true ↔
      min leaseDuration.value.toNat getMaxLeaseAge.value.toNat <
        asOf.value.toNat - last.value.toNat := by
  rw [isExpired_iff hlast, UInt64.toNat_sub_of_le _ _ hle]

/-- Before it, the difference wraps. -/
theorem isExpired_iff_of_lt {lease : Lease} {last : NanosecondPoint}
    (hlast : lease.lastCounterIncrementNanoseconds = some last)
    (leaseDuration : NanosecondDuration) {asOf : NanosecondPoint}
    (hlt : asOf.value < last.value) :
    lease.isExpired leaseDuration asOf = true ↔
      last.value.toNat + min leaseDuration.value.toNat getMaxLeaseAge.value.toNat <
        asOf.value.toNat + 2 ^ 64 := by
  have hbound := last.value.toNat_lt
  have hltNat := UInt64.lt_iff_toNat_lt.mp hlt
  have hwrapped : (asOf.value - last.value).toNat =
      asOf.value.toNat + 2 ^ 64 - last.value.toNat := by
    rw [UInt64.toNat_sub]
    omega
  rw [isExpired_iff hlast, hwrapped]
  omega

/-- Renewing a lease in memory keeps its increment time. -/
@[simp] theorem isExpired_copySharedWithIncrementedCounter (lease : Lease)
    (leaseDuration : NanosecondDuration) (asOf : NanosecondPoint) :
    lease.copySharedWithIncrementedCounter.isExpired leaseDuration asOf =
      lease.isExpired leaseDuration asOf := by
  unfold copySharedWithIncrementedCounter
  split <;> rfl

@[simp] theorem leaseKey_copySharedWithIncrementedCounter (lease : Lease) :
    lease.copySharedWithIncrementedCounter.leaseKey = lease.leaseKey := by
  unfold copySharedWithIncrementedCounter
  split <;> rfl

@[simp] theorem leaseOwner_copySharedWithIncrementedCounter (lease : Lease) :
    lease.copySharedWithIncrementedCounter.leaseOwner = lease.leaseOwner := by
  unfold copySharedWithIncrementedCounter
  split <;> rfl

end Lease

end Leases

end Kclpp
