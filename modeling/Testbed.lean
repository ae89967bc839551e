import Testbed.Anna.LatticeLaws
import Testbed.Anna.PrimaryReplicas
import Testbed.Anna.AccessCounts
import Testbed.Anna.JoinGossip
import Testbed.Anna.AcknowledgedPuts
import Testbed.Anna.JoinHandovers
import Testbed.Anna.DeferredRemovals
import Testbed.Anna.LookupTermination
import Testbed.Anna.KnownFactors
import Testbed.Anna.RoutingAnswers
import Testbed.Anna.FactorRequests
import Testbed.Anna.ClientRuns
import Testbed.Anna.FactorAnnouncements
import Testbed.Anna.ScaleDown
import Testbed.Anna.MetadataKeys
import Testbed.Anna.OrderedSets
import Testbed.Anna.ReplicaWideCalls
import Testbed.Anna.Timestamps
import Testbed.Anna.PureReads
import Testbed.Anna.CacheTracking
import Testbed.Mica.Presence
import Testbed.Mica.Ownership
import Testbed.Mica.Completions
import Testbed.Mica.Responses
import Testbed.Mica.RemoteEndpoints
import Testbed.Com.SocketServer
import Testbed.Mica.HugePages
import Testbed.Mica.RecentKeyHashes
import Testbed.Mica.OversizedRequests
import Testbed.Utils.Tracer
