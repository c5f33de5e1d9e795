import Kclpp.Async.KCLAsyncContext.Basic
import Kclpp.Clientlib.Worker.ShardConsumer.Basic

/-!
# The Kinesis client

Every operation of `KCLKinesisClient` is one request, as with the DynamoDB client.
Where the code makes a result of its own from what the service returns, the parts of
the service's result that it reads are parameters.
-/

namespace Kclpp

namespace Kinesis

open Async

open Clientlib.Worker (GetShardIteratorRequest ShardIteratorType)

/-- The blocking calls, with the requests that they send. -/
inductive KinesisCall (α : Type*) where
  | listStreams
  | describeStream (streamName : String)
  | getShardIterator (request : GetShardIteratorRequest)
  | getRecords (request : GetRecordsRequest)
  | createStream (request : α)
  | deleteStream (request : α)
  | putRecord (request : α)
  | putRecords (request : α)
  deriving DecidableEq

structure ShardIteratorProperties where
  streamName : StreamName
  shardID : ShardID
  iteratorType : ShardIteratorType
  deriving DecidableEq

structure ShardIteratorDescription where
  iteratorID : ShardIteratorID
  properties : ShardIteratorProperties
  deriving DecidableEq

namespace KCLKinesisClient

variable {α ε ρ ι : Type*}

def listStreamsAsync (callback : Except ε ρ → ι) :
    Request (KinesisCall α) ε ρ ι where
  call := .listStreams
  callback := callback

def describeStreamAsync (streamName : String) (callback : Except ε ρ → ι) :
    Request (KinesisCall α) ε ρ ι where
  call := .describeStream streamName
  callback := callback

/-- `KCLKinesisClient::getShardIteratorAsync`. The description is made by the work,
from a call that has returned. -/
def getShardIteratorAsync (getShardIterator : ρ → String)
    (request : GetShardIteratorRequest)
    (callback : Except ε ShardIteratorDescription → ι) :
    Request (KinesisCall α) ε ρ ι where
  call := .getShardIterator request
  callback := fun outcome => callback (outcome.map fun result =>
    { iteratorID := ⟨getShardIterator result⟩
      properties :=
        { streamName := request.streamName
          shardID := request.shardId
          iteratorType := request.shardIteratorType } })

def getRecordsAsync (iterId : ShardIteratorID) (limit : UInt64)
    (callback : Except ε ρ → ι) : Request (KinesisCall α) ε ρ ι where
  call := .getRecords (Kinesis.getRecordsAsync iterId limit)
  callback := callback

def createStreamAsync (request : α) (callback : Except ε ρ → ι) :
    Request (KinesisCall α) ε ρ ι where
  call := .createStream request
  callback := callback

def deleteStreamAsync (request : α) (callback : Except ε ρ → ι) :
    Request (KinesisCall α) ε ρ ι where
  call := .deleteStream request
  callback := callback

def putRecordAsync (request : α) (callback : Except ε ρ → ι) :
    Request (KinesisCall α) ε ρ ι where
  call := .putRecord request
  callback := callback

def putRecordsAsync (request : α) (callback : Except ε ρ → ι) :
    Request (KinesisCall α) ε ρ ι where
  call := .putRecords request
  callback := callback

def listShardsAsync {σ : Type*} (getShards : ρ → List σ) (streamName : StreamName)
    (callback : Except ε (List σ) → ι) : Request (KinesisCall α) ε ρ ι :=
  describeStreamAsync streamName.value fun outcome => callback (outcome.map getShards)

end KCLKinesisClient

end Kinesis

end Kclpp
