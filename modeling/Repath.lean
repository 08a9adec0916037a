import Repath.Lib.Word
import Repath.Lib.History
import Repath.Lib.Exec
import Repath.Lib.BoundedFifo
import Repath.Lib.Memory
import Repath.Dpdk.Headers
import Repath.Selection.Selector
import Repath.Selection.MinDelay
import Repath.HopaCp.Encode
import Repath.HopaCp.Progress
import Repath.Ovs.Encode
import Repath.Ovs.Progress
import Repath.Ovs.TableBounds
import Repath.Ovs.Selection
import Repath.HopaCp.Selection
import Repath.HopaCp.Probe
import Repath.PathSelection
import Repath.HopaCp.Departure
import Repath.Ovs.Agreement
import Repath.HopaCp.Recovery
import Repath.Ovs.Recirculate
import Repath.Ovs.Delivery
import Repath.Ovs.RoundTrip
import Repath.Lib.Cells
import Repath.Ovs.RxqRecv
import Repath.Ovs.Injection
import Repath.HopaCp.PortDecode
import Repath.HopaCp.RoundTrip
import Repath.Checksum
import Repath.Dpdk.Frame
import Repath.Ovs.Filter
import Repath.HopaCp.Dispatch
import Repath.Ovs.ForeignPackets
import Repath.Lib.Places
import Repath.Ovs.Mempool
import Repath.Ovs.InRing
import Repath.Ovs.Startup
import Repath.HopaCp.Conservation
import Repath.HopaCp.DelayRange
import Repath.HopaCp.Decision
import Repath.HopaCp.Transmit
import Repath.Lib.WordSum
import Repath.UdpChecksum
import Repath.Recycled
import Repath.Datapath.Meter
import Repath.Datapath.Policing
import Repath.Datapath.Batches
import Repath.Datapath.Input
import Repath.Datapath.InputOrder
import Repath.Datapath.InputRefines
import Repath.Datapath.Dpcls
import Repath.Datapath.FlowLife
import Repath.Datapath.FlowRefs
import Repath.Datapath.FlowMarks
import Repath.Datapath.FlowRuns
import Repath.Datapath.FlowSafety
import Repath.Datapath.Sched
import Repath.Datapath.SchedAssign
import Repath.Datapath.SchedFair
