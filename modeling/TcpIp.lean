import TcpIp.Lib.Binary
import TcpIp.Lib.Credit
import TcpIp.Lib.Fifo
import TcpIp.Lib.Maps
import TcpIp.Lib.Monitor
import TcpIp.Lib.Relax
import TcpIp.Lib.Ring
import TcpIp.Lib.Rounding
import TcpIp.Lib.Run
import TcpIp.Lib.Slice
import TcpIp.Lib.Spans
import TcpIp.Tcp.Wire
import TcpIp.Tcp.Tcb
import TcpIp.Tcp.Timeout
import TcpIp.Tcp.Receive
import TcpIp.Tcp.Send
import TcpIp.Tcp.Conn
import TcpIp.Tcp.Effect
import TcpIp.Tcp.CallEffect
import TcpIp.Tcp.Moves
import TcpIp.Tcp.Sender
import TcpIp.Tcp.Receiver
import TcpIp.Tcp.States
import TcpIp.Tcp.Emissions
import TcpIp.Tcp.Established
import TcpIp.Tcp.SendPointers
import TcpIp.Tcp.Window
import TcpIp.Tcp.Coverage
import TcpIp.Tcp.Conservation
import TcpIp.Tcp.StateDiagram
import TcpIp.Tcp.TimeWait
import TcpIp.Tcp.Acks
import TcpIp.Tcp.Translation
import TcpIp.Tcp.Handshake
import TcpIp.Tcp.HandshakeTimer
import TcpIp.Tcp.TransmitLoop
import TcpIp.Tcp.Closing
import TcpIp.Tcp.CloseOrder
import TcpIp.Tcp.PendingClose
import TcpIp.Tcp.CopyLoop
import TcpIp.Tcp.Reading
import TcpIp.Tcp.Reassembly
import TcpIp.Tcp.EarlyMerge
import TcpIp.Tcp.EarlyQueue
import TcpIp.Tcp.SendRing
import TcpIp.Tcp.RingIndex
import TcpIp.Tcp.Resending
import TcpIp.Tcp.Probing
import TcpIp.Tcp.Handler
import TcpIp.Tcp.SocketTable
import TcpIp.Tcp.Bearing
import TcpIp.Tcp.Ownership
import TcpIp.Tcp.Isolation
import TcpIp.Net.Network
import TcpIp.Net.Sending
import TcpIp.Net.Flow
import TcpIp.Net.FlowControl
import TcpIp.Net.StreamIntegrity
import TcpIp.Net.Handshake
import TcpIp.Net.LostAck
import TcpIp.Ip.RoutingTable
import TcpIp.Ip.RipMessage
import TcpIp.Ip.Rip
import TcpIp.Ip.Host
import TcpIp.Ip.SoftState
import TcpIp.Ip.Relaxation
import TcpIp.Ip.Refresh
import TcpIp.Ip.CostBounds
import TcpIp.Ip.RipDecoding
import TcpIp.Ip.TriggeredUpdates
import TcpIp.Ip.Forward
import TcpIp.Ip.Layout
import TcpIp.Ip.Topology
import TcpIp.Ip.Convergence
import TcpIp.Ip.RipNetwork
import TcpIp.Ip.Soundness
import TcpIp.Ip.ClockedNetwork
import TcpIp.Ip.RouteTimers
import TcpIp.Ip.CountToInfinity
import TcpIp.Ip.Output
import TcpIp.Ip.OutputPaths
import TcpIp.Ip.Traffic
import TcpIp.Ip.Delivery
import TcpIp.Ip.Probes
import TcpIp.Ip.Traceroute
import TcpIp.Ip.ShortestPaths
import TcpIp.Ip.Internet
import TcpIp.Net.Framing
import TcpIp.Net.Parsing
import TcpIp.Net.Stack
import TcpIp.Net.Node
import TcpIp.Net.SocketIndex
import TcpIp.Tcp.ActiveOpen
import TcpIp.Tcp.Writing
import TcpIp.Tcp.EndOfStream
import TcpIp.Tcp.OneWay
import TcpIp.Net.Backing
import TcpIp.Net.Conveying
import TcpIp.Net.HalfClose
import TcpIp.Net.FileTransfer
import TcpIp.Tcp.HalfClose
import TcpIp.Tcp.FinWait2
import TcpIp.Tcp.TimeWaitTimer
import TcpIp.Tcp.Locks
import TcpIp.Tcp.Control
import TcpIp.Tcp.CongestionWindow
import TcpIp.Tcp.BackOff
import TcpIp.Tcp.RttEstimate
import TcpIp.Tcp.FastRetransmit
import TcpIp.Tcp.Tiling
import TcpIp.Tcp.Timestamps
