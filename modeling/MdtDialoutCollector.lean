import MdtDialoutCollector.Runs.Machine
import MdtDialoutCollector.DataManipulation.EnvelopeBody
import MdtDialoutCollector.Core.Returns
import MdtDialoutCollector.Core.FailedDecoding
import MdtDialoutCollector.Core.ZmqBody
import MdtDialoutCollector.Core.LateStart
import MdtDialoutCollector.Core.EnvelopeLabel
import MdtDialoutCollector.Core.Sequence
import MdtDialoutCollector.Labels.Reload
import MdtDialoutCollector.Labels.PreTag
import MdtDialoutCollector.Core.Acceptor
import MdtDialoutCollector.Core.StreamHistory
import MdtDialoutCollector.DataManipulation.CiscoNormal
import MdtDialoutCollector.Core.PayloadOwnership
import MdtDialoutCollector.DataManipulation.Pipeline
import MdtDialoutCollector.DataManipulation.MetricsTree
import MdtDialoutCollector.DataManipulation.NodeNames
import MdtDialoutCollector.DataManipulation.Tags
import MdtDialoutCollector.DataManipulation.HuaweiRows
import MdtDialoutCollector.Bridge.Options
import MdtDialoutCollector.Core.FsmCtrl
import MdtDialoutCollector.Core.CiscoFlags
import MdtDialoutCollector.Bridge.Calls
import MdtDialoutCollector.Utils.PeerForms
import MdtDialoutCollector.Core.PeerPort
import MdtDialoutCollector.Utils.KafkaKeys
import MdtDialoutCollector.Utils.SocketAlias
import MdtDialoutCollector.Core.RepliesCounter
import MdtDialoutCollector.DataManipulation.CiscoDepth
import MdtDialoutCollector.DataManipulation.PathLoop
import MdtDialoutCollector.Core.LabelLock
import MdtDialoutCollector.Daemon.Shutdown
import MdtDialoutCollector.Core.WorkerLoop
import MdtDialoutCollector.Core.ZmqOrder
import MdtDialoutCollector.Core.Drain
import MdtDialoutCollector.Labels.Written
import MdtDialoutCollector.Daemon.Start
import MdtDialoutCollector.Core.Reader
import MdtDialoutCollector.Core.LastMessages
import MdtDialoutCollector.Core.LockedLoops
import MdtDialoutCollector.Core.LockEnds
