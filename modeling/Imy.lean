import Imy.Lib.Command
import Imy.Lib.Text
import Imy.Lib.FilePath
import Imy.Lib.PathElements
import Imy.Lib.Lines
import Imy.Lib.Separated
import Imy.Lib.Reordered
import Imy.Lib.Lists
import Imy.Lib.SafeRuns
import Imy.Lib.Pools
import Imy.Lib.TopicLog
import Imy.Lib.Transition
import Imy.Lib.Clockwise
import Imy.Lib.Threads
import Imy.Storage.Timeline
import Imy.Storage.FileNames
import Imy.Storage.FilesApart
import Imy.Storage.TimelineLoad
import Imy.Storage.TimelineAppend
import Imy.Storage.AppendLog
import Imy.Storage.CrashImage
import Imy.Storage.Durability
import Imy.Storage.FailedSend
import Imy.Storage.CheckpointSync
import Imy.Storage.SequenceRestart
import Imy.Lock.LockManager
import Imy.Lock.LockSafety
import Imy.Lock.Agreement
import Imy.Txn.Coordinator
import Imy.Txn.Rounds
import Imy.Txn.FailedBegin
import Imy.Txn.AtomicCommit
import Imy.Txn.CallOrder
import Imy.Txn.Interleaving
import Imy.Txn.LockOwnership
import Imy.Index.GlobalIndex
import Imy.Index.IndexEntries
import Imy.Storage.Growth
import Imy.Txn.StorageManager
import Imy.Txn.TypedParams
import Imy.Txn.ManagerCalls
import Imy.Txn.Cleanup
import Imy.Txn.Isolation
import Imy.Txn.DefaultHandler
import Imy.Txn.FailedTransaction
import Imy.Txn.ExecuteSteps
import Imy.Txn.NoLeak
import Imy.Router.HashRing
import Imy.Router.RingOwnership
import Imy.Router.RingIntegrity
import Imy.Chat.Database
import Imy.Chat.Logic
import Imy.Chat.Stages
import Imy.Chat.SendOnce
import Imy.Chat.ReadProgress
import Imy.Chat.LastMessage
import Imy.Chat.Unread
import Imy.Chat.UnreadCache
import Imy.Chat.Operations
import Imy.Chat.UnreadInvariant
import Imy.Lib.Trace
import Imy.Lib.Interference
import Imy.Lib.Paging
import Imy.Lib.FairPicks
import Imy.Lib.Seats
import Imy.Lib.Staged
import Imy.Lib.Tally
import Imy.Chat.Requests
import Imy.Chat.RemovedMembers
import Imy.Chat.Writes
import Imy.Chat.MessageHistory
import Imy.Chat.MemberColumns
import Imy.Chat.LostSight
import Imy.Chat.Paging
import Imy.Chat.Roster
import Imy.Chat.MemberCount
import Imy.Chat.PrivateMembers
import Imy.Chat.CallStages
import Imy.Chat.PairRace
import Imy.Chat.MemberCalls
import Imy.Chat.CountTally
import Imy.Chat.CountRace
import Imy.Chat.Answers
import Imy.Chat.MessageFields
import Imy.Chat.PrivateKeys
import Imy.Chat.ConversationPages
import Imy.Auth.Logic
import Imy.Auth.SessionTakeover
import Imy.Lib.Statements
import Imy.Lib.Header
import Imy.Lib.LockTable
import Imy.Friends.Logic
import Imy.Friends.Friendship
import Imy.Friends.Decisions
import Imy.Friends.VerifyLogic
import Imy.Friends.Consent
import Imy.Auth.Register
import Imy.Gateway.Handler
import Imy.Gateway.Identity
import Imy.Gateway.Unauthorized
import Imy.Gateway.Upstream
import Imy.Websocket.Hub
import Imy.Websocket.HubInvariant
import Imy.Websocket.SlowClient
import Imy.Websocket.Pumps
import Imy.Websocket.Framing
import Imy.Svc.WsHub
import Imy.Svc.ConnWrite
import Imy.Index.Coherence
import Imy.Index.Migration
import Imy.Index.Update
import Imy.Index.StoreLoads
import Imy.Index.Listing
import Imy.Registry.Registry
import Imy.Router.Routing
import Imy.Registry.RoutedStores
import Imy.Registry.StoreManager
import Imy.Migration.Task
import Imy.Migration.TaskEnds
import Imy.Migration.Cancelled
import Imy.Access.Accessor
import Imy.Access.Reached
import Imy.Access.CreateDelete
import Imy.Access.ReadBack
import Imy.Access.MessageCache
import Imy.Migration.Messages
import Imy.Router.Replicas
import Imy.Router.RoundRobin
import Imy.Storage.BackwardPaging
import Imy.Storage.SequenceLoading
import Imy.Storage.LastSeqID
import Imy.Storage.BlockStructure
import Imy.Storage.Offsets
import Imy.Storage.Capacity
import Imy.Shard.AutoRebalance
import Imy.Shard.Rebalance
import Imy.Shard.ReadOnly
import Imy.Shard.MigrationGain
import Imy.Rpc.AddMessage
import Imy.Cache.MultiLevel
import Imy.Cache.Batch
import Imy.Cache.MemoryCache
import Imy.Cache.LruMap
import Imy.Cache.LruOrder
import Imy.Cache.SizeBound
import Imy.Cache.Levels
import Imy.Cache.RoundTrip
import Imy.Cache.Expiry
import Imy.Cache.WholeCalls
import Imy.Optimizer.ConnectionPool
import Imy.Optimizer.CircuitBreaker
import Imy.Optimizer.QueryPlans
import Imy.Rpc.Connect
import Imy.Lock.WithLock
import Imy.Lib.Channels
import Imy.Index.Watchers
import Imy.Storage.ExactlyOnce
import Imy.Websocket.HubDelivery
import Imy.Lib.Since
import Imy.Registry.Discovery
import Imy.Lib.KeyedMachines
import Imy.Gateway.Limiter
import Imy.Lib.NamedSets
import Imy.Svc.Push
import Imy.Svc.ChatWs
import Imy.Auth.Sessions
import Imy.Lib.PathText
import Imy.Fileserver.Middleware
import Imy.Lib.History
import Imy.Chat.Pushes
import Imy.Chat.ToldOnce
