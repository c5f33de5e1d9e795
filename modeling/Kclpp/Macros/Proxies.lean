import Mathlib

/-!
# Proxy types

`KCLPP_DEFINE_STRING_PROXY_TYPE` and `KCLPP_DEFINE_UNSIGNED_PROXY_TYPE` stamp
out one wrapper class per name around an `Aws::String` and around a `size_t`.
The classes of one macro differ in nothing but their name, so each macro is one
type here, indexed by the class name, and every proxy class is an instance of
it. Comparison is comparison of the wrapped values.
-/

open Std

namespace Kclpp

/-- The classes made by `KCLPP_DEFINE_STRING_PROXY_TYPE` that the model uses. -/
inductive StringProxyClass where
  | leaseKey
  | leaseOwner
  | concurrencyToken
  | checkpointID
  | subCheckpointID
  | tableName
  | shardIteratorID
  | streamName
  | shardID
  deriving DecidableEq, Repr

/-- The classes made by `KCLPP_DEFINE_UNSIGNED_PROXY_TYPE` that the model uses. -/
inductive UnsignedProxyClass where
  | leaseCounter
  | numberOfLeaseSwitches
  | numberOfLeases
  | nanosecondDuration
  | nanosecondPoint
  | numberOfRecords
  deriving DecidableEq, Repr

/-- A string proxy: a wrapper around one `Aws::String`. -/
@[ext] structure StringProxy (class_name : StringProxyClass) where
  value : String
  deriving DecidableEq, Repr, Inhabited

/-- An unsigned proxy: a wrapper around one `size_t`, zero by default. -/
@[ext] structure UnsignedProxy (class_name : UnsignedProxyClass) where
  value : UInt64 := 0
  deriving DecidableEq, Repr, Inhabited

instance stringProxyLawfulBEq {c : StringProxyClass} :
    LawfulBEq (StringProxy c) := inferInstance

instance stringProxyOrd {c : StringProxyClass} : Ord (StringProxy c) :=
  ⟨fun a b => compare a.value b.value⟩

theorem compare_stringProxy {c : StringProxyClass} (a b : StringProxy c) :
    compare a b = compare a.value b.value := rfl

instance stringProxyTransOrd {c : StringProxyClass} : TransOrd (StringProxy c) where
  eq_swap {a b} := by
    rw [compare_stringProxy, compare_stringProxy]
    exact OrientedCmp.eq_swap
  isLE_trans {a b d} := by
    rw [compare_stringProxy, compare_stringProxy, compare_stringProxy]
    exact TransCmp.isLE_trans

instance stringProxyLawfulEqOrd {c : StringProxyClass} :
    LawfulEqOrd (StringProxy c) where
  compare_self {a} := by
    rw [compare_stringProxy]
    exact ReflCmp.compare_self
  eq_of_compare {_ _} h := StringProxy.ext (Std.compare_eq_iff_eq.mp h)

namespace Leases

abbrev LeaseKey := StringProxy .leaseKey
abbrev LeaseOwner := StringProxy .leaseOwner
abbrev ConcurrencyToken := StringProxy .concurrencyToken
abbrev CheckpointID := StringProxy .checkpointID
abbrev SubCheckpointID := StringProxy .subCheckpointID
abbrev LeaseCounter := UnsignedProxy .leaseCounter
abbrev NumberOfLeaseSwitches := UnsignedProxy .numberOfLeaseSwitches
abbrev NumberOfLeases := UnsignedProxy .numberOfLeases

end Leases

namespace Clock

abbrev NanosecondDuration := UnsignedProxy .nanosecondDuration
abbrev NanosecondPoint := UnsignedProxy .nanosecondPoint

end Clock

namespace Dynamo

abbrev TableName := StringProxy .tableName

end Dynamo

namespace Kinesis

abbrev ShardIteratorID := StringProxy .shardIteratorID
abbrev StreamName := StringProxy .streamName
abbrev ShardID := StringProxy .shardID
abbrev NumberOfRecords := UnsignedProxy .numberOfRecords

end Kinesis

end Kclpp
