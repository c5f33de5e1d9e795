import Kclpp.Transition.Run
import Kclpp.Transition.VersionedCell
import Kclpp.Containers.OrderedMap
import Kclpp.Containers.TakenOut
import Kclpp.Macros.Proxies
import Kclpp.Util.SafeStrToUll
import Kclpp.Util.Numerals
import Kclpp.Dynamo.Item
import Kclpp.Dynamo.Service
import Kclpp.Leases.Lease
import Kclpp.Leases.RoundTrip
import Kclpp.Leases.DynamoHelpers
import Kclpp.Leases.LeaseManager.Basic
import Kclpp.Leases.LeaseManager.Calls
import Kclpp.Leases.LeaseManager.Agreement
import Kclpp.Leases.LeaseManager.FreshReads
import Kclpp.Leases.LeaseManager.Fencing
import Kclpp.Leases.LeaseManager.Readability
import Kclpp.Leases.Listing
import Kclpp.Leases.LeaseMap
import Kclpp.Leases.LeaseRenewer.Basic
import Kclpp.Leases.LeaseRenewer.Rounds
import Kclpp.Leases.LeaseTaker.Basic
import Kclpp.Leases.LeaseTaker.Rounds
import Kclpp.Leases.Expiry
import Kclpp.Leases.LeaseCoordinator.Basic
import Kclpp.Leases.LeaseCoordinator.Handoff
import Kclpp.AsyncGroup
import Kclpp.AsyncGroup.Election
import Kclpp.Leases.LeaseCoordinator.Workers
import Kclpp.Leases.LeaseCoordinator.Rounds
import Kclpp.Leases.LeaseCoordinator.Ownership
import Kclpp.Async.EventFD
import Kclpp.Async.TimerEvent
import Kclpp.Async.Queues.SPSCEventChannel
import Kclpp.Async.Queues.MPSCEventChannel
import Kclpp.Async.DataChannel
import Kclpp.Async.ControlChannel
import Kclpp.Async.Tpool.CallbackTask
import Kclpp.Async.Tpool.ThreadPool
import Kclpp.Async.KCLAsyncContext.Basic
import Kclpp.Dynamo.KCLDynamoClient
import Kclpp.Kinesis.KCLKinesisClient
import Kclpp.Async.KCLAsyncContext.Answers
import Kclpp.Async.Wheel.DynamicWheelBuffer
import Kclpp.Async.Wheel.Bucket
import Kclpp.Async.Wheel.SlotOrder
import Kclpp.Async.Wheel.SlotBound
import Kclpp.Async.Wheel.HTimerWheel
import Kclpp.Async.Wheel.Levels
import Kclpp.Async.Wheel.Frames
import Kclpp.Async.Wheel.Conservation
import Kclpp.Async.Wheel.Timers
import Kclpp.Async.Wheel.Lateness
import Kclpp.Async.Wheel.TickDiscipline
import Kclpp.Async.Wheel.Accuracy
import Kclpp.Kinesis.ShardChain
import Kclpp.Clientlib.Worker.ShardConsumer.Basic
import Kclpp.Clientlib.Worker.ShardConsumer.Liveness
import Kclpp.Clientlib.Worker.ShardConsumer.Delivery
import Kclpp.Clientlib.Worker.ShardConsumer.ClosedShard
import Kclpp.Clientlib.Worker.ShardConsumer.Shutdown
import Kclpp.Clientlib.Worker.ShardConsumer.Retry
import Kclpp.Leases.LeaseCheckpointer.Basic
import Kclpp.Leases.LeaseCheckpointer.Checkpoints
import Kclpp.Leases.LeaseCheckpointer.OwnerSwitches
import Kclpp.Histories.LastRun
import Kclpp.Leases.LeaseTaker.Scans
import Kclpp.Balancing.Loads
import Kclpp.Leases.LeaseTaker.Counts
import Kclpp.Leases.LeaseTaker.Steals
import Kclpp.Leases.LeaseTaker.Balance
import Kclpp.Leases.LeaseProcess.Basic
import Kclpp.AsyncGroup.CallAccount
import Kclpp.Leases.LeaseProcess.Answers
import Kclpp.Leases.LeaseProcess.Held
import Kclpp.Leases.LeaseProcess.Removals
import Kclpp.Leases.LeaseProcess.Tokens
import Kclpp.Leases.LeaseProcess.Retention
import Kclpp.Leases.LeaseCoordinator.Lifecycle
import Kclpp.Leases.LeaseCoordinator.Errors
import Kclpp.Leases.LeaseCheckpointer.Responses
import Kclpp.Leases.LeaseCheckpointer.Updates
import Kclpp.Leases.LeaseManager.AbsentRows
import Kclpp.Histories.Versions
import Kclpp.Leases.LeaseManager.ReadYourWrites
import Kclpp.Leases.LeaseTaker.Limit
import Kclpp.Async.EventContext
import Kclpp.Async.Tpool.DataChannels
import Kclpp.Async.Tpool.Builds
import Kclpp.Async.Tpool.Lifecycle
import Kclpp.Async.Vendored.ReaderWriterQueue.Basic
import Kclpp.Async.Vendored.ReaderWriterQueue.Invariant
import Kclpp.Async.Vendored.ConcurrentQueue.BlockPool.Basic
import Kclpp.Async.Vendored.ConcurrentQueue.BlockPool.Blocks
import Kclpp.Async.Vendored.ConcurrentQueue.BlockingConcurrentQueue
import Kclpp.Async.Vendored.ReaderWriterQueue.Answers
import Kclpp.Async.Vendored.ReaderWriterQueue.Capacity
import Kclpp.Async.Vendored.ReaderWriterQueue.Progress
import Kclpp.Async.Vendored.ReaderWriterQueue.Teardown
import Kclpp.Locks.ThreadBaton
