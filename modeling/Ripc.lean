import Ripc.Table
import Ripc.NodeMap
import Ripc.Tally
import Ripc.CString
import Ripc.Backref
import Ripc.Trace
import Ripc.Guarded
import Ripc.Result
import Ripc.Outcome
import Ripc.Block
import Ripc.ListHead
import Ripc.IdPack
import Ripc.Authored
import Ripc.OrderedMap
import Ripc.Submem
import Ripc.ReadBuffer
import Ripc.WriteBuffer
import Ripc.Codec
import Ripc.RoundTrip
import Ripc.ReaderBounds
import Ripc.PageText
import Ripc.ReferenceReader
import Ripc.WriterReset
import Ripc.ClientCall
import Ripc.CallFields
import Ripc.CallLog
import Ripc.ExactlyOnce
import Ripc.WaitSteps
import Ripc.Wakeups
import Ripc.DriverState
import Ripc.DriverShm
import Ripc.DriverNotif
import Ripc.DriverConnection
import Ripc.DriverTask
import Ripc.DriverMonitor
import Ripc.DriverCalls
import Ripc.DriverEvents
import Ripc.DriverLinks
import Ripc.DriverOwners
import Ripc.DriverSends
import Ripc.DriverTeardown
import Ripc.DriverCleanup
import Ripc.DriverRelease
import Ripc.DriverGrowth
import Ripc.DriverRegister
import Ripc.DriverRefines
import Ripc.DriverSteps
import Ripc.DriverIds
import Ripc.DriverAsks
import Ripc.DriverPeers
import Ripc.DriverQueues
import Ripc.DriverFarewell
import Ripc.DriverChanges
import Ripc.DriverRuns
import Ripc.DriverFaults
import Ripc.DriverCleanupFaults
import Ripc.DriverIoctlFaults
import Ripc.DriverUnowned
import Ripc.DriverLost
import Ripc.DriverSevered
import Ripc.DriverEmptied
import Ripc.DriverRefusals
import Ripc.DriverPages
import Ripc.DriverMapped
import Ripc.DriverNews
import Ripc.DriverJoins
import Ripc.DriverCounts
import Ripc.DriverRoster
import Ripc.ObjectGraph
import Ripc.SharedPages
import Ripc.NullSafety
import Ripc.Registration
import Ripc.ServerNames
import Ripc.QueueReads
import Ripc.ConcurrentReads
import Ripc.ReleaseCleanup
import Ripc.ModuleExit
import Ripc.SubMemIds
import Ripc.IdValidity
import Ripc.DriverProvided
import Ripc.MessageRouting
import Ripc.DriverParties
import Ripc.DriverPartings
import Ripc.DisconnectNotices
import Ripc.ConnectSteps
import Ripc.ConnectAlone
import Ripc.ConcurrentConnects
import Ripc.WholeConnects
import Ripc.ProcessIsolation
import Ripc.LimitSteps
import Ripc.Limits
import Ripc.LimitWindows
import Ripc.LimitRuns
import Ripc.DriverLimits
import Ripc.MonitorSnapshot
import Ripc.Filled
import Ripc.SnapshotContents
import Ripc.PageHistory
import Ripc.PageSlots
import Ripc.PageResidue
import Ripc.EntityManager
import Ripc.PeerKnowledge
import Ripc.StaleNotifications
import Ripc.ClientHistory
import Ripc.Reconnecting
import Ripc.ClientSet
import Ripc.PackCallers
import Ripc.MappingSteps
import Ripc.MappingAgrees
import Ripc.ServerTable
import Ripc.TableFollows
import Ripc.ServerFarewells
import Ripc.TableAgrees
import Ripc.Url
import Ripc.UrlMatching
import Ripc.PatternOrder
import Ripc.PatternUrls
import Ripc.Callbacks
import Ripc.Dispatch
import Ripc.RouteTable
import Ripc.DispatchEnds
import Ripc.AnsweredRequests
import Ripc.RestRequests
import Ripc.RefServer
import Ripc.RefTables
import Ripc.RefViews
import Ripc.LifecycleSteps
import Ripc.Lifecycle
import Ripc.Pools
import Ripc.IdAccounts
import Ripc.Polling
import Ripc.Lines
import Ripc.LineSteps
import Ripc.LineQueues
import Ripc.ClientAlone
import Ripc.Exchange
import Ripc.ExchangeSteps
import Ripc.ExchangeSound
import Ripc.ExchangeRuns
import Ripc.RestCalls
import Ripc.RestExchange
import Ripc.Broker
import Ripc.Hub
import Ripc.HubSound
import Ripc.DriverHub
import Ripc.HubEvents
import Ripc.HubPartings
import Ripc.HubRegister
import Ripc.HubLinks
import Ripc.HubReads
import Ripc.HubRuns
import Ripc.HubFaults
import Ripc.HubServers
import Ripc.ServerManager
import Ripc.ServerSet
