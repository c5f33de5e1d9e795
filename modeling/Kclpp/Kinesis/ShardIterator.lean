import Kclpp.Macros.Proxies

/-!
# Shard iterators

A `ShardIterator` walks one shard: `nextID` is the token of the batch to ask for
next and `currentID` that of the batch last read. `getNextBatch` sends a
`GetRecords` request and `onGetRecords` is what its callback does to the
iterator when the answer comes; in between, other callbacks may run. The stream
name, shard id and type that an iterator carries along are left out, since no
function reads them.
-/

namespace Kclpp

/-- What the code reads of an `AWSError`. -/
structure AWSError where
  exceptionName : String
  message : String
  deriving DecidableEq, Repr, Inhabited

namespace Kinesis

structure GetRecordsRequest where
  shardIterator : ShardIteratorID
  limit : Int32
  deriving DecidableEq

structure GetRecordsResult (α : Type*) where
  records : List α
  nextShardIterator : String
  deriving DecidableEq

/-- `KCLKinesisClient::getRecordsAsync`, up to the request it sends. The limit
comes as a `size_t` and goes as an `int`. -/
def getRecordsAsync (iterId : ShardIteratorID) (limit : UInt64) :
    GetRecordsRequest where
  shardIterator := iterId
  limit := limit.toUInt32.toInt32

/-- The token that an answer names as the next one. An empty string and one that
begins with `null` say that the shard has ended. -/
def nextToken (nextId : String) : Option ShardIteratorID :=
  if nextId.isEmpty || "null".toList.isPrefixOf nextId.toList then none
  else some ⟨nextId⟩

/-- `ShardIterator::ShardIteratorState`. -/
@[ext] structure ShardIterator where
  currentID : ShardIteratorID := ⟨""⟩
  nextID : Option ShardIteratorID
  deriving DecidableEq

namespace ShardIterator

def createNew (iteratorID : ShardIteratorID) : ShardIterator :=
  { nextID := some iteratorID }

def isAtEnd (iter : ShardIterator) : Bool := iter.nextID.isNone

/-- `ShardIterator::getNextBatch`, up to the request it sends; `none` where its
`CHECK` fails. -/
def getNextBatch (iter : ShardIterator) (limit : UInt64) :
    Option GetRecordsRequest :=
  iter.nextID.map fun nextID => getRecordsAsync nextID limit

/-- The callback of `ShardIterator::getNextBatch`; `none` where it asks an empty
`nextID` for its value. -/
def onGetRecords {α : Type*} (iter : ShardIterator) :
    Except AWSError (GetRecordsResult α) → Option ShardIterator
  | .error _ => some iter
  | .ok awsResult =>
      iter.nextID.map fun nextID =>
        { currentID := nextID, nextID := nextToken awsResult.nextShardIterator }

@[simp] theorem isAtEnd_createNew (iteratorID : ShardIteratorID) :
    (createNew iteratorID).isAtEnd = false := rfl

end ShardIterator

end Kinesis

end Kclpp
