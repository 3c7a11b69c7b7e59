import Serialmux.Framework.Decoder
import Serialmux.Framework.Ring
import Serialmux.Framework.Machine
import Serialmux.Framework.Service
import Serialmux.Framework.Chunks
import Serialmux.Framework.Marks
import Serialmux.Framework.Inflight
import Serialmux.Framework.Sessions
import Serialmux.Framework.Checked
import Serialmux.Framework.Framed
import Serialmux.Framework.Tasks
import Serialmux.Framework.Interleave
import Serialmux.Framework.Crc
import Serialmux.Framework.RoundRobin
import Serialmux.Framework.Vlq
import Serialmux.Protocol.Frame
import Serialmux.Protocol.Parser
import Serialmux.Protocol.Scanner
import Serialmux.Protocol.Resync
import Serialmux.Protocol.TxQueue
import Serialmux.Protocol.ByteFifo
import Serialmux.Protocol.Link
import Serialmux.Channel.Io
import Serialmux.Channel.Mcu
import Serialmux.Channel.McuProtocol
import Serialmux.Channel.Pty
import Serialmux.Channel.Tcp
import Serialmux.Channel.TcpFrames
import Serialmux.Channel.TcpSilence
import Serialmux.Channel.TcpSlot
import Serialmux.Channel.TcpFarewell
import Serialmux.Channel.TcpLive
import Serialmux.Channel.Dyn
import Serialmux.Channel.Demand
import Serialmux.Channel.Interest
import Serialmux.Channel.TcpMoves
import Serialmux.Channel.TcpState
import Serialmux.Channel.TcpGrammar
import Serialmux.Channel.TcpStream
import Serialmux.Channel.Pause
import Serialmux.Channel.Twin
import Serialmux.Channel.McuSilence
import Serialmux.EventLoop.Daemon
import Serialmux.EventLoop.Calls
import Serialmux.EventLoop.Rules
import Serialmux.EventLoop.Fifo
import Serialmux.EventLoop.Keepalive
import Serialmux.EventLoop.Backpressure
import Serialmux.EventLoop.Run
import Serialmux.EventLoop.Hysteresis
import Serialmux.EventLoop.PeerTimeout
import Serialmux.EventLoop.Wakeup
import Serialmux.EventLoop.Teardown
import Serialmux.EventLoop.Silence
import Serialmux.EventLoop.Deadlines
import Serialmux.EventLoop.Views
import Serialmux.EventLoop.Refinement
import Serialmux.System.Pair
import Serialmux.System.Agreement
import Serialmux.System.Handshake
import Serialmux.System.Speech
import Serialmux.System.Uplink
import Serialmux.System.Downlink
import Serialmux.System.Restart
import Serialmux.System.Lane
import Serialmux.System.Tunnel
import Serialmux.System.Parting
import Serialmux.System.Farewell
import Serialmux.Reference.Parser
import Serialmux.Reference.Txq
import Serialmux.Reference.Channels
import Serialmux.Reference.Daemon
import Serialmux.Reference.ChannelSound
import Serialmux.Reference.Sound
import Serialmux.Reference.Run
import Serialmux.Reference.Output
import Serialmux.Reference.Hands
import Serialmux.Reference.TcpHands
import Serialmux.Reference.Calls
import Serialmux.Reference.Enqueue
import Serialmux.Reference.Deadlines
import Serialmux.Reference.McuPort
import Serialmux.Reference.Crc
import Serialmux.Reference.SlotPool
import Serialmux.Windlass.Framing
import Serialmux.Windlass.Relay
import Serialmux.Windlass.Bridge
import Serialmux.Windlass.Transparent
import Serialmux.Windlass.Clients
import Serialmux.Windlass.Resync
import Serialmux.Windlass.Dictionary
import Serialmux.Windlass.SmartHost
import Serialmux.Windlass.Identify
import Serialmux.Windlass.Proxy
import Serialmux.Windlass.Exporting
import Serialmux.Windlass.Hosting
import Serialmux.Windlass.Proxied
import Serialmux.Cli.ChannelSpec
