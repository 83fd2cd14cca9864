import DataPropagator.Lib.Machine
import DataPropagator.Lib.ParentForest
import DataPropagator.Lib.Binary32
import DataPropagator.Lib.KeyMap
import DataPropagator.Common.HashMap
import DataPropagator.Common.HashMapRuns
import DataPropagator.Lib.Custody
import DataPropagator.Lib.Fields
import DataPropagator.Common.HashMapOwnership
import DataPropagator.Common.HashMapFailure
import DataPropagator.Common.CString
import DataPropagator.Common.Node
import DataPropagator.Common.NodeGraph
import DataPropagator.Lib.ByteOrder
import DataPropagator.Common.Utils
import DataPropagator.Common.Warning
import DataPropagator.Common.PropagatorClient
import DataPropagator.Common.Receive
import DataPropagator.Common.WireCodec
import DataPropagator.CentralPropagator.Context
import DataPropagator.CentralPropagator.Dispatcher
import DataPropagator.CentralPropagator.TreeWalks
import DataPropagator.CentralPropagator.Routing
import DataPropagator.Lib.Monitor
import DataPropagator.Common.TSQueue
import DataPropagator.CentralPropagator.ThreadPool
import DataPropagator.CentralPropagator.PoolShutdown
import DataPropagator.CentralPropagator.Shutdown
import DataPropagator.CentralPropagator.Submission
import DataPropagator.Common.PropagatorConnections
import DataPropagator.Common.ClientRuns
import DataPropagator.Lib.FramedStream
import DataPropagator.Common.FrameAlignment
import DataPropagator.Lib.BoundedFifo
import DataPropagator.Common.TSQueueRuns
import DataPropagator.Common.TSQueueWakeups
import DataPropagator.Common.QueueReader
import DataPropagator.DataSource.Pipeline
import DataPropagator.DataSource.Stopping
import DataPropagator.DataSource.Sentinel
import DataPropagator.DataDestination.Draining
import DataPropagator.DataDestination.ListenerStartup
import DataPropagator.DataDestination.CountFile
import DataPropagator.Common.WireMessage
import DataPropagator.Common.FrameBuffer
import DataPropagator.Lib.Ledger
import DataPropagator.Common.DecoderSafety
import DataPropagator.Common.ConnectionRuns
import DataPropagator.DataSource.Launcher
import DataPropagator.CentralPropagator.IdLookup
import DataPropagator.CentralPropagator.SubtreeMap
import DataPropagator.Common.NodeLines
import DataPropagator.Common.NodeFile
import DataPropagator.Common.NodeColumns
import DataPropagator.Common.HashMapLoad
import DataPropagator.DataSource.LaunchHandles
import DataPropagator.DataSource.GracefulClose
import DataPropagator.Common.WarningText
import DataPropagator.Lib.LinkedChain
import DataPropagator.Common.LinkedQueue
import DataPropagator.Lib.Courier
import DataPropagator.Network.Wire
import DataPropagator.Network.System
import DataPropagator.Network.Tracking
import DataPropagator.Network.Delivery
import DataPropagator.Network.WholeSystem
import DataPropagator.Lib.ChainTable
import DataPropagator.Common.LinkedHashMap
import DataPropagator.Common.HashMapGrowth
import DataPropagator.Lib.ArgumentVector
import DataPropagator.DataSource.Startup
import DataPropagator.Common.ConnectionCleanup
import DataPropagator.CentralPropagator.PoolFaults
import DataPropagator.Common.Segmentation
import DataPropagator.DataSource.StopProtocol
import DataPropagator.DataSource.StopRuns
import DataPropagator.DataSource.LaunchedStop
