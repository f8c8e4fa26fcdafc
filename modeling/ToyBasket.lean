import ToyBasket.Lib.Words
import ToyBasket.Lib.Outcome
import ToyBasket.Lib.Heap
import ToyBasket.Buffer
import ToyBasket.Buffer.Spec
import ToyBasket.Buffer.Refinement
import ToyBasket.Timer
import ToyBasket.Timer.Pass
import ToyBasket.Timer.NestedAdd
import ToyBasket.Timer.Schedule
import ToyBasket.Lib.Drain
import ToyBasket.Rpc.Frame
import ToyBasket.Rpc.Server
import ToyBasket.Rpc.Channel
import ToyBasket.Rpc.Chunking
import ToyBasket.Rpc.Malformed
import ToyBasket.Rpc.RoundTrip
import ToyBasket.Lib.Machine
import ToyBasket.Rpc.Host
import ToyBasket.Rpc.Routing
import ToyBasket.Rpc.Session
import ToyBasket.Rpc.Correlation
import ToyBasket.Net.EventLoop
import ToyBasket.Net.Output
import ToyBasket.Net.StreamConnection
import ToyBasket.Net.Serial
import ToyBasket.Net.Integrity
import ToyBasket.Net.Shutdown
import ToyBasket.Net.Channel
import ToyBasket.Net.Poller
import ToyBasket.Net.Loop
import ToyBasket.Net.InetAddress
import ToyBasket.Net.StreamServer
import ToyBasket.Timer.NestedDelete
import ToyBasket.Net.Connector
import ToyBasket.Net.StreamClient
import ToyBasket.Net.Confinement
import ToyBasket.Net.Attempt
import ToyBasket.Net.AttemptCount
import ToyBasket.Net.ClientLife
import ToyBasket.Net.ServerLoop
import ToyBasket.Net.ServerLife
import ToyBasket.Rpc.Progress
import ToyBasket.Rpc.Concurrent
import ToyBasket.Rpc.Dispatch
import ToyBasket.Rpc.Unsent
import ToyBasket.Net.CloseRace
import ToyBasket.Net.Destroy
import ToyBasket.Net.StopRead
import ToyBasket.Task.LoopThread
import ToyBasket.Task.StopRequest
import ToyBasket.Timer.Worker
import ToyBasket.Timer.InOrder
import ToyBasket.Timer.Iteration
import ToyBasket.Timer.Ending
import ToyBasket.Timer.SelfDelete
import ToyBasket.Timer.Ids
import ToyBasket.Timer.Milliseconds
import ToyBasket.Net.FlowControl
import ToyBasket.Net.SendPaths
import ToyBasket.Net.Interest
import ToyBasket.Checksum
import ToyBasket.Checksum.Signed
import ToyBasket.Checksum.Trailer
import ToyBasket.Lib.HostOrder
import ToyBasket.Net.SerialGuard
import ToyBasket.Net.SerialPort
import ToyBasket.Task.BlockingQueue
import ToyBasket.Buffer.Integers
import ToyBasket.Buffer.Growth
import ToyBasket.Net.Link
import ToyBasket.Lib.Descriptors
import ToyBasket.Net.Acceptor
import ToyBasket.Net.Datagram
import ToyBasket.Net.EventList
import ToyBasket.Net.AddressText
import ToyBasket.StringPiece.Order
import ToyBasket.Task.CommonLoopThread
import ToyBasket.Net.EndOfStream
import ToyBasket.Net.Persistence
import ToyBasket.Rpc.Wire
import ToyBasket.Rpc.Transport
import ToyBasket.Rpc.AtRest
import ToyBasket.Rpc.Synchronous
import ToyBasket.Lib.Protobuf
import ToyBasket.Rpc.PbRuntime
import ToyBasket.Rpc.MetaMessage
import ToyBasket.Samples.Echo
