import Sem.Medea.EntityFactoryLemmas
import Sem.Medea.GraphMLCursor
import Sem.Medea.GraphmlRoundTrip
import Sem.Re.ReplicatedConnections
import Sem.Re.TerminalSources
import Sem.Lib.Throwing
import Sem.FftAccel.PacketGroup
import Sem.FftAccel.PacketCodec
import Sem.FftAccel.RequestMap
import Sem.FftAccel.Dispatcher
import Sem.Ports.StateMachine
import Sem.Ports.ManagedLoop
import Sem.Ports.EventCounts
import Sem.Ports.SubscriberPort
import Sem.Ports.PortLifecycle
import Sem.Ports.RequestReplyPort
import Sem.Ports.EventAccounting
import Sem.Zmq.CachedProtoWriter
import Sem.Zmq.ProtoRequester
import Sem.Zmq.ProtoReplier
import Sem.Lib.Filling
import Sem.Lib.Joined
import Sem.ReGen.Graphml
import Sem.ReGen.GeneralFunctions
import Sem.ReGen.LibraryNames
import Sem.Ports.Composite
import Sem.NodeManager.SlaveStartup
import Sem.AggregationServer.StatusEvents
import Sem.Medea.SiblingHistory
import Sem.Medea.DataRuns
import Sem.Medea.UuidIndex
import Sem.Medea.EventSeries
import Sem.Workers.TcpWorker
import Sem.Tao.TaoHelper
import Sem.Logan.StatusResolution
import Sem.NodeManager.Reconfiguration
import Sem.OpenCL.MatrixDimensions
import Sem.OpenCL.KmeansIteration
import Sem.OpenCL.MatrixProduct
import Sem.OpenCL.DeviceAccounting
import Sem.ReGen.TranslatorsInverse
import Sem.ReGen.IdlTypedefs
import Sem.Medea.CommonAncestor
import Sem.Re.ReplicaCounts
import Sem.Netdata.SampleConservation
import Sem.Logan.MonitoredProcesses
import Sem.Medea.ConnectableNodes
import Sem.Medea.EdgeConstruction
import Sem.Zmq.ReceiverDispatch
import Sem.AggregationServer.UtilisationReplies
import Sem.AggregationServer.SqlStatements
import Sem.AggregationServer.TimeIntervals
import Sem.Medea.VersionComparison
import Sem.Medea.LabelKey
import Sem.Medea.TreeIndex
import Sem.FftAccel.RuntimeAdapter
import Sem.Zmq.DelimitedMessages
import Sem.Ports.ComponentCallbacks
import Sem.Ports.PeriodicPort
import Sem.Ports.SubscriberQueue
import Sem.EnvironmentManager.ContainerLoggers
import Sem.EnvironmentManager.Distribution
import Sem.Lib.SqlLexer
import Sem.Re.AttributeValues
import Sem.Re.SocketAddress
import Sem.Workers.Complexity
import Sem.Logan.InsertPool
import Sem.Medea.SeriesQueries
import Sem.Medea.ChartBins
import Sem.Medea.MarkerIdSets
import Sem.Medea.UtilisationBounds
import Sem.Medea.RunData
import Sem.Medea.SelectionPaths
import Sem.Medea.TimelineRange
import Sem.Re.ParserCaches
import Sem.ReGen.ChildOrder
import Sem.ReGen.NodeIdentity
import Sem.ReGen.VariableScopes
import Sem.ReGen.ClassClosure
import Sem.ReGen.DeploymentVerdicts
import Sem.EnvironmentManager.PortRuns
import Sem.EnvironmentManager.Updates
import Sem.ReGen.SetterCode
import Sem.ReGen.UniqueLabels
