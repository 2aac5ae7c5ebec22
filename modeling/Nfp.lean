import Nfp.Lib.Run
import Nfp.Lib.Batch
import Nfp.Lib.Ledger
import Nfp.Lib.Send
import Nfp.Lib.Path
import Nfp.Lib.Text
import Nfp.Lib.Wrap
import Nfp.Lib.Bytes
import Nfp.Lib.Memory
import Nfp.Lib.Chain
import Nfp.Lib.Channel
import Nfp.Lib.Pipeline
import Nfp.Lib.Fanin
import Nfp.Lib.Command
import Nfp.Api.In6
import Nfp.Api.Cmsg
import Nfp.Queue.Basic
import Nfp.Queue.Slist
import Nfp.Queue.Stailq
import Nfp.Queue.Dlist
import Nfp.Queue.Tailq
import Nfp.Queue.Traverse
import Nfp.Dispatch.PktVector
import Nfp.Dispatch.FpmDirect
import Nfp.Dispatch.Queues
import Nfp.Dispatch.Direct
import Nfp.Dispatch.Tcpperf
import Nfp.Tcpperf.Threads
import Nfp.Tcpperf.Accounts
import Nfp.Classifier.Worker
import Nfp.Classifier.Trim
import Nfp.Classifier.Setup
import Nfp.UdpFwd.Config
import Nfp.Sigevent.Callbacks
import Nfp.Term.Shutdown
import Nfp.Term.Pipeline
import Nfp.Mains.World
import Nfp.Mains.Examples
import Nfp.Mains.Unwind
import Nfp.Common.CliArgParse
import Nfp.Common.InMemory
import Nfp.Common.CopyLoop
import Nfp.Common.Parser
import Nfp.Common.Ownership
import Nfp.Common.Repeated
import Nfp.Common.RoundTrip
import Nfp.Common.Cores
import Nfp.NetwrapProc.Lifecycle
import Nfp.Power.Worker
import Nfp.Power.Interrupts
import Nfp.Webserver.Connections
import Nfp.Webserver.Select
import Nfp.Webserver.Epoll
import Nfp.Webserver.Http
import Nfp.Webserver.Request
import Nfp.Netwrap.Common
import Nfp.Netwrap.Socket
import Nfp.Netwrap.Transfer
import Nfp.Netwrap.Select
import Nfp.Netwrap.SelectReturn
import Nfp.Netwrap.Epoll
import Nfp.Netwrap.Routing
import Nfp.Netwrap.Delivery
import Nfp.Netwrap.Lengths
import Nfp.Netwrap.Position
import Nfp.Netwrap.Options
import Nfp.Netwrap.Address
import Nfp.Netwrap.Fork
import Nfp.NetwrapProc.Env
