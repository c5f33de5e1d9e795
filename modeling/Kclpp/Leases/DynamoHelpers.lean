import Kclpp.Dynamo.Service
import Kclpp.Leases.Lease

/-!
# Expectations and updates of a lease

`makeCASExpectation` is the condition every conditional lease operation puts on
the row: its owner and its counter are those of the lease object.
`makeUpdateValues` is what an operation writes. The lemmas here are what the
rest of the development knows about the two: `expectationHolds_makeCASExpectation`
and the updated attributes of `makeUpdateValues`.
-/

open Std OrderedMap

namespace Kclpp

namespace Leases

open Dynamo Util Lease

def makeLeaseKey (lease : Lease) : Item :=
  (∅ : Item).insert "leaseKey" (.s lease.leaseKey.value)

def counterAttribute (counter : Option LeaseCounter) : Option AttributeValue :=
  counter.map fun c => .n (printUll c.value)

/-- The expectation on one attribute: a present field expects its value, an
absent one expects that the attribute does not exist. -/
def expectedAttribute : Option AttributeValue → ExpectedAttributeValue
  | some value => .withValue value
  | none => .notExists

def makeCASExpectation (lease : Lease) : ExpectedMap :=
  let expected : ExpectedMap := ∅
  let expected := expected.insertIfNew "leaseOwner"
    (expectedAttribute (stringAttribute lease.leaseOwner))
  expected.insertIfNew "leaseCounter"
    (expectedAttribute (counterAttribute lease.leaseCounter))

/-- `dynamo_helpers::UpdateLeaseParams`. -/
structure UpdateLeaseParams where
  newOwner : Option LeaseOwner := none
  setOwnerToNull : Bool := false
  deriving DecidableEq, Repr

/-- The counter an update writes: zero for an absent counter, plus one. -/
def nextCounter (lease : Lease) : UInt64 :=
  (lease.leaseCounter.elim 0 fun counter => counter.value) + 1

/-- The number of owner switches a change of owner writes. -/
def nextSwitches (lease : Lease) : UInt64 :=
  (lease.ownerSwitchesSinceCheckpoint.elim 0 fun switches => switches.value) + 1

/-- The part of `makeUpdateValues` that concerns the owner. -/
def makeOwnerUpdates (lease : Lease) (params : UpdateLeaseParams) : UpdateMap :=
  let oldOwner := lease.leaseOwner
  if params.setOwnerToNull then
    if oldOwner.isSome then (∅ : UpdateMap).insertIfNew "leaseOwner" .delete
    else ∅
  else
    match params.newOwner with
    | none => ∅
    | some newOwner =>
        if oldOwner = some newOwner then ∅
        else
          ((∅ : UpdateMap).insertIfNew "leaseOwner"
            (.withValue (.s newOwner.value))).insertIfNew
              "ownerSwitchesSinceCheckpoint"
              (.withValue (.n (printUll (nextSwitches lease))))

def makeUpdateValues (lease : Lease) (params : UpdateLeaseParams := {}) :
    UpdateMap :=
  (makeOwnerUpdates lease params).insertIfNew "leaseCounter"
    (.withValue (.n (printUll (nextCounter lease))))

theorem counterAttribute_injective : Function.Injective counterAttribute := by
  refine Option.map_injective ?_
  intro a b h
  exact UnsignedProxy.ext (printUll_injective (AttributeValue.n.inj h))

theorem stringAttribute_injective {c : StringProxyClass} :
    Function.Injective (stringAttribute (c := c)) := by
  refine Option.map_injective ?_
  intro a b h
  exact StringProxy.ext (AttributeValue.s.inj h)

@[simp] theorem holds_expectedAttribute (value expected : Option AttributeValue) :
    (expectedAttribute expected).holds value = true ↔ value = expected := by
  cases expected with
  | none => exact holds_notExists value
  | some v => exact holds_withValue value v

/-- The condition of a conditional lease operation: the row's owner and counter
are those of the lease object, absence included. -/
theorem expectationHolds_makeCASExpectation (lease : Lease)
    (row : Option Item) :
    expectationHolds (makeCASExpectation lease) row = true ↔
      attributeOf row "leaseOwner" = stringAttribute lease.leaseOwner ∧
        attributeOf row "leaseCounter" = counterAttribute lease.leaseCounter := by
  have hlookup : ∀ name, lookup (makeCASExpectation lease) name =
      if "leaseCounter" = name then
        some (expectedAttribute (counterAttribute lease.leaseCounter))
      else if "leaseOwner" = name then
        some (expectedAttribute (stringAttribute lease.leaseOwner))
      else none := by
    intro name
    simp [makeCASExpectation]
  rw [expectationHolds_iff]
  constructor
  · intro h
    exact ⟨(holds_expectedAttribute _ _).mp (h "leaseOwner" _ (by simp [hlookup])),
      (holds_expectedAttribute _ _).mp (h "leaseCounter" _ (by simp [hlookup]))⟩
  · rintro ⟨howner, hcounter⟩ name e he
    rw [hlookup] at he
    split_ifs at he with h₁ h₂
    · cases he
      rw [← h₁, holds_expectedAttribute, hcounter]
    · cases he
      rw [← h₂, holds_expectedAttribute, howner]

@[simp] theorem primaryKey_makeLeaseKey (lease : Lease) :
    primaryKey (makeLeaseKey lease) = some lease.leaseKey.value := by
  simp [primaryKey, makeLeaseKey, keyAttribute]

def ownerUpdate (lease : Lease) (params : UpdateLeaseParams) :
    Option AttributeValueUpdate :=
  if params.setOwnerToNull then
    if lease.leaseOwner.isSome then some .delete else none
  else
    params.newOwner.bind fun newOwner =>
      if lease.leaseOwner = some newOwner then none
      else some (.withValue (.s newOwner.value))

def switchesUpdate (lease : Lease) (params : UpdateLeaseParams) :
    Option AttributeValueUpdate :=
  if params.setOwnerToNull then none
  else
    params.newOwner.bind fun newOwner =>
      if lease.leaseOwner = some newOwner then none
      else some (.withValue (.n (printUll (nextSwitches lease))))

theorem lookup_makeOwnerUpdates (lease : Lease) (params : UpdateLeaseParams)
    (name : String) :
    lookup (makeOwnerUpdates lease params) name =
      if "ownerSwitchesSinceCheckpoint" = name then switchesUpdate lease params
      else if "leaseOwner" = name then ownerUpdate lease params
      else none := by
  unfold makeOwnerUpdates switchesUpdate ownerUpdate
  cases params.setOwnerToNull with
  | true =>
      cases lease.leaseOwner with
      | none => simp
      | some owner =>
          by_cases hname : "leaseOwner" = name
          · subst hname
            simp
          · simp [hname]
  | false =>
      cases params.newOwner with
      | none => simp
      | some newOwner =>
          by_cases h : lease.leaseOwner = some newOwner <;> simp [h]

theorem lookup_makeUpdateValues (lease : Lease) (params : UpdateLeaseParams)
    (name : String) :
    lookup (makeUpdateValues lease params) name =
      if "leaseCounter" = name then
        some (.withValue (.n (printUll (nextCounter lease))))
      else if "ownerSwitchesSinceCheckpoint" = name then
        switchesUpdate lease params
      else if "leaseOwner" = name then ownerUpdate lease params
      else none := by
  simp [makeUpdateValues, lookup_makeOwnerUpdates]

@[simp] theorem leaseCounter_copySharedWithIncrementedCounter (lease : Lease) :
    lease.copySharedWithIncrementedCounter.leaseCounter =
      some ⟨nextCounter lease⟩ := by
  unfold copySharedWithIncrementedCounter nextCounter
  cases lease.leaseCounter with
  | none => rfl
  | some counter => simp [add_comm]

theorem nextCounter_ne (lease : Lease) :
    some (⟨nextCounter lease⟩ : LeaseCounter) ≠ lease.leaseCounter := by
  intro h
  have hself : nextCounter lease = nextCounter lease + 1 := by
    conv_lhs => rw [nextCounter, ← h]
    rfl
  simp at hself

end Leases

end Kclpp
