import Kclpp.Containers.OrderedMap
import Kclpp.Macros.Proxies

/-!
# Items, expectations and updates

The part of the DynamoDB model that concerns one item. An item is a map from
attribute names to attribute values. `expectationHolds` is the condition of a
conditional write, read at an item that may be absent: an absent item has no
attributes, so an `Exists(false)` expectation cannot tell it from an item that
lacks the attribute. `applyUpdates` is the effect of `AttributeUpdates`.
-/

open Std OrderedMap

namespace Kclpp

namespace Dynamo

/-- An attribute value. Numbers are kept as the text the service returns for
them, which it normalizes; `other` stands for every type that is neither a
string nor a number. -/
inductive AttributeValue where
  | s (value : String)
  | n (value : String)
  | other (raw : String)
  deriving DecidableEq, Repr

/-- `AttributeValue::GetS`: empty for a value that is not a string. -/
def AttributeValue.getS : AttributeValue → String
  | .s value => value
  | _ => ""

/-- `AttributeValue::GetN`: empty for a value that is not a number. -/
def AttributeValue.getN : AttributeValue → String
  | .n value => value
  | _ => ""

/-- `attr_map_t`, the attributes of an item or of a key. -/
abbrev Item := TreeMap String AttributeValue

/-- `ExpectedAttributeValue`: the attribute has this value, or it does not
exist. -/
inductive ExpectedAttributeValue where
  | withValue (value : AttributeValue)
  | notExists
  deriving DecidableEq, Repr

abbrev ExpectedMap := TreeMap String ExpectedAttributeValue

/-- `AttributeValueUpdate`: the default action puts a value, `DELETE_` removes
the attribute. -/
inductive AttributeValueUpdate where
  | withValue (value : AttributeValue)
  | delete
  deriving DecidableEq, Repr

abbrev UpdateMap := TreeMap String AttributeValueUpdate

/-- The attribute of an item that may be absent. -/
def attributeOf (item : Option Item) (name : String) : Option AttributeValue :=
  item.bind fun attributes => lookup attributes name

@[simp] theorem attributeOf_none (name : String) : attributeOf none name = none := rfl

@[simp] theorem attributeOf_some (item : Item) (name : String) :
    attributeOf (some item) name = lookup item name := rfl

def ExpectedAttributeValue.holds (value : Option AttributeValue) :
    ExpectedAttributeValue → Bool
  | .withValue expected => value == some expected
  | .notExists => value.isNone

@[simp] theorem holds_withValue (value : Option AttributeValue)
    (expected : AttributeValue) :
    (ExpectedAttributeValue.withValue expected).holds value = true ↔
      value = some expected := by
  simp [ExpectedAttributeValue.holds]

@[simp] theorem holds_notExists (value : Option AttributeValue) :
    ExpectedAttributeValue.notExists.holds value = true ↔ value = none := by
  simp [ExpectedAttributeValue.holds]

def expectationHolds (expected : ExpectedMap) (item : Option Item) : Bool :=
  expected.toList.all fun entry => entry.2.holds (attributeOf item entry.1)

theorem expectationHolds_iff (expected : ExpectedMap) (item : Option Item) :
    expectationHolds expected item = true ↔
      ∀ name e, lookup expected name = some e →
        e.holds (attributeOf item name) = true := by
  simp only [expectationHolds, List.all_eq_true, Prod.forall]
  constructor
  · intro h name e he
    exact h name e ((mem_toList_iff_lookup expected name e).mpr he)
  · intro h name e he
    exact h name e ((mem_toList_iff_lookup expected name e).mp he)

def applyUpdate (item : Item) (update : String × AttributeValueUpdate) : Item :=
  match update.2 with
  | .withValue value => item.insert update.1 value
  | .delete => item.erase update.1

/-- The effect of `AttributeUpdates` on an item. -/
def applyUpdates (item : Item) (updates : UpdateMap) : Item :=
  updates.toList.foldl applyUpdate item

def AttributeValueUpdate.result : AttributeValueUpdate → Option AttributeValue
  | .withValue value => some value
  | .delete => none

/-- An updated attribute has the value its update leaves, and every other
attribute is unchanged. -/
@[simp] theorem lookup_applyUpdates (item : Item) (updates : UpdateMap)
    (name : String) :
    lookup (applyUpdates item updates) name =
      (lookup updates name).elim (lookup item name)
        AttributeValueUpdate.result := by
  refine foldl_toList_lookup lookup applyUpdate AttributeValueUpdate.result
    ?_ ?_ updates item name
  · rintro d ⟨k, u⟩
    cases u <;> simp [applyUpdate, AttributeValueUpdate.result]
  · rintro d ⟨k, u⟩ a h
    cases u <;> simp [applyUpdate, h]

end Dynamo

end Kclpp
