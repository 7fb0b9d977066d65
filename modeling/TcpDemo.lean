import TcpDemo.Lib.Interaction
import TcpDemo.Lib.Trace
import TcpDemo.Lib.CBytes
import TcpDemo.Lib.Text
import TcpDemo.Lib.Wrap
import TcpDemo.Lib.Lcg
import TcpDemo.Lib.While
import TcpDemo.Lib.Memory
import TcpDemo.Platform.Sbrk
import TcpDemo.Platform.Uart
import TcpDemo.Platform.Startup
import TcpDemo.EchoClient.TxData
import TcpDemo.EchoClient.Verdict
import TcpDemo.EchoClient.Progress
import TcpDemo.EchoClient.System
import TcpDemo.EchoClient.Stale
import TcpDemo.EchoClient.Completeness
import TcpDemo.EchoClient.Drain
import TcpDemo.EchoClient.Discipline
import TcpDemo.FreeRTOS
import TcpDemo.EchoServer.Fidelity
import TcpDemo.EchoServer.Protocol
import TcpDemo.Heartbeat.Framing
import TcpDemo.Heartbeat.LifeCycle
import TcpDemo.Linux.Terminal
import TcpDemo.Linux.Isolation
import TcpDemo.Receivers
import TcpDemo.Demos.Echo
import TcpDemo.Demos.Heartbeat
import TcpDemo.App.Node
import TcpDemo.EchoClient.LifeCycle
import TcpDemo.EchoClient.Faithful
import TcpDemo.Linux.Descriptors
import TcpDemo.Pacing
import TcpDemo.Platform.HeapMemory
import TcpDemo.App.Sockets
import TcpDemo.Demos.Board
