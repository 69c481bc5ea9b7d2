import Agora.Lib.Prog
import Agora.Lib.Machine
import Agora.Lib.Loop
import Agora.Lib.System
import Agora.Code.Buffer
import Agora.Code.Channel
import Agora.Code.TcpConnection
import Agora.Code.HttpContext
import Agora.Spec.Bytes
import Agora.Spec.HttpParse
import Agora.Buffer
import Agora.Conn.Stream
import Agora.Http.Context
import Agora.Code.EventLoop
import Agora.EventLoop.Steps
import Agora.EventLoop.Wakeup
import Agora.Lib.Embed
import Agora.Code.HttpResponse
import Agora.Code.HttpServer
import Agora.Http.Dispatch
import Agora.Code.ConnLoop
import Agora.Conn.Quiet
import Agora.Conn.Closed
import Agora.Conn.Owner
import Agora.Conn.Batch
import Agora.Lib.Ledger
import Agora.Code.Connector
import Agora.Connector.Rules
import Agora.Connector.Loop
import Agora.Connector.Reset
import Agora.Connector.Sockets
import Agora.Code.TimerQueue
import Agora.TimerQueue.Moves
import Agora.TimerQueue.Cancel
import Agora.TimerQueue.Armed
import Agora.TimerQueue.Spare
import Agora.Connector.Agree
import Agora.Connector.LastCall
import Agora.EventLoop.Drain
import Agora.Code.EventLoopThread
import Agora.EventLoop.Stop
import Agora.Code.StaticFileServer
import Agora.Spec.Path
import Agora.Http.StaticFiles
import Agora.Conn.Input
import Agora.Spec.HttpStream
import Agora.Http.KeepAlive
import Agora.Code.TcpClient
import Agora.Client.Destroy
import Agora.Conn.Life
import Agora.Code.TcpServer
import Agora.Server.Rules
import Agora.Server.Life
import Agora.Client.Life
import Agora.Conn.Notified
import Agora.Server.Teardown
import Agora.Server.Crossing
import Agora.Server.Destroy
import Agora.Connector.Outstanding
import Agora.Connector.InFlight
import Agora.Client.Reconnect
import Agora.Spec.Lines
import Agora.Http.Delimit
import Agora.Spec.Response
import Agora.Http.Response
import Agora.Http.Headers
import Agora.EventLoop.Order
import Agora.TimerQueue.Places
import Agora.TimerQueue.Content
import Agora.TimerQueue.Pass
import Agora.Code.Poller
import Agora.Poller
import Agora.Spec.Percent
import Agora.Http.UrlDecode
import Agora.Http.RequestLine
import Agora.Code.SizedBuffer
import Agora.SizedBuffer
import Agora.Lib.Idle
import Agora.Conn.Drain
import Agora.Conn.Mute
import Agora.Http.Refused
import Agora.Lib.Barrier
import Agora.Connector.Stop
import Agora.Client.Single
import Agora.Lib.Simulate
import Agora.Lib.RoundRobin
import Agora.Lib.Progress
import Agora.Lib.Queues
import Agora.Code.Acceptor
import Agora.Code.Service
import Agora.Code.Servers
import Agora.Server.Pending
import Agora.Server.Hosting
import Agora.Server.Sessions
import Agora.Conn.Still
import Agora.Conn.Calls
import Agora.Spec.HttpTalk
import Agora.Spec.HttpClient
import Agora.Http.Talk
import Agora.Server.Output
import Agora.Server.Tame
import Agora.Server.HalfClose
import Agora.Conn.Registered
import Agora.Server.Registered
import Agora.Http.Message
import Agora.Http.Hosted
import Agora.Http.Sites
import Agora.Http.Pipeline
import Agora.Server.RoundRobin
import Agora.Server.Wire
import Agora.Server.Plain
import Agora.Server.Echo
import Agora.TimerQueue.Once
import Agora.Server.Rest
import Agora.Conn.Flush
import Agora.Server.Flush
import Agora.Server.Delivery
import Agora.Server.Settle
