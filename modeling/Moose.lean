import Moose.RbTree.Balance
import Moose.Tcp.Reassembly
import Moose.Tcp.Stream
import Moose.Tcp.Progress
import Moose.Tcp.Negotiation
import Moose.Tcp.Translation
import Moose.Sched.Gate
import Moose.Clock.Timer
import Moose.Clock.Cancel
import Moose.Clock.Calibration
import Moose.Net.Robust
import Moose.Net.Demux
import Moose.Memory.Frames
import Moose.Reindeer.Ept
import Moose.Memory.Allocator
import Moose.Sync.IrqLock
import Moose.Sched.Processor
import Moose.Reindeer.LocalApic
import Moose.Reindeer.Paging
import Moose.Reindeer.MemoryMap
import Moose.Hyperv.Offers
import Moose.Hyperv.Dispatch
import Moose.Hyperv.Sections
import Moose.Reindeer.Mmio
import Moose.Hyperv.Socket
import Moose.Tcp.ByteCounting
import Moose.Tcp.RoundTrip
import Moose.Tcp.Paws
import Moose.Tcp.SpuriousTimeout
import Moose.Tcp.WindowFloor
import Moose.Tcp.Ranges
import Moose.Tcp.Drain
import Moose.Net.Lease
import Moose.Net.Routing
import Moose.Net.SocketRuns
import Moose.Net.Dns
import Moose.Net.Cache
import Moose.Net.Udp
import Moose.Fat32.Paths
import Moose.Fat32.Persist
import Moose.Fat32.Write
import Moose.Monocle.Frame
