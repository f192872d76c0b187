import Bounce.Library.Overwrite
import Bounce.Library.Steps
import Bounce.Library.Multimap
import Bounce.Library.Worklist
import Bounce.Library.Tagged
import Bounce.Library.RoundRobin
import Bounce.Objects.Buffer.Basic
import Bounce.Objects.Buffer.Theorems.Content
import Bounce.Objects.Buffer.Theorems.Queue
import Bounce.Objects.Buffer.Theorems.Integers
import Bounce.Objects.Buffer.Calls
import Bounce.Objects.Buffer.Theorems.Pool
import Bounce.Objects.Buffer.Theorems.Subscripts
import Bounce.Objects.Buffer.Theorems.Capacity
import Bounce.Objects.Channel
import Bounce.Objects.PollPoller.Basic
import Bounce.Objects.PollPoller.Watch
import Bounce.Objects.PollPoller.Theorems.Consistent
import Bounce.Objects.PollPoller.Theorems.Run
import Bounce.Objects.PollPoller.Theorems.Visible
import Bounce.Objects.PollPoller.Poll
import Bounce.Objects.EventLoop.Basic
import Bounce.Objects.TimerQueue.Basic
import Bounce.Objects.TimerQueue.Theorems.Callbacks
import Bounce.Objects.TimerQueue.Theorems.Walk
import Bounce.Objects.TimerQueue.Theorems.Performs
import Bounce.Objects.TimerQueue.Theorems.Pass
import Bounce.Objects.TimerQueue.Theorems.Expiry
import Bounce.Objects.TimerQueue.Theorems.Armed
import Bounce.Objects.TcpConnection.Basic
import Bounce.Objects.TcpConnection.Theorems
import Bounce.Objects.SockAddress.Basic
import Bounce.Objects.SockAddress.RoundTrip
import Bounce.Execution.WakeUp.Basic
import Bounce.Execution.WakeUp.Stranded
import Bounce.Execution.WakeUp.Order
import Bounce.Execution.Connection.Basic
import Bounce.Execution.Connection.Step
import Bounce.Execution.Connection.Theorems.Runs
import Bounce.Execution.Connection.Theorems.Places
import Bounce.Execution.Connection.Theorems.Stream
import Bounce.Execution.Connection.Theorems.Teardown
import Bounce.Execution.Connection.Theorems.Graceful
import Bounce.Execution.Connection.Theorems.InStep
import Bounce.Execution.Connection.Theorems.Unset
import Bounce.Execution.Connection.Theorems.Lifetime
import Bounce.Execution.Connection.Theorems.Trace
import Bounce.Execution.Server.Basic
import Bounce.Execution.Server.View
import Bounce.Execution.Server.Removal
import Bounce.Execution.Server.Trace
import Bounce.Objects.TimerQueue.Theorems.Operations
import Bounce.Objects.TimerQueue.Theorems.Kept
import Bounce.Objects.TimerQueue.Theorems.Exact
import Bounce.Execution.Timers.Basic
import Bounce.Execution.Timers.Consistent
import Bounce.Execution.Timers.Deleted
import Bounce.Execution.Timers.Once
import Bounce.Objects.Connector.Basic
import Bounce.Execution.Connecting.Basic
import Bounce.Execution.Connecting.Conserved
import Bounce.Objects.TcpServer.Basic
import Bounce.Objects.TcpServer.Start
import Bounce.Execution.Accepting.Basic
import Bounce.Execution.Accepting.Failed
import Bounce.Execution.Dispatch
import Bounce.Execution.Distribution
import Bounce.Execution.Ownership.Basic
import Bounce.Execution.Ownership.Released
import Bounce.Execution.Starting.Basic
import Bounce.Execution.Starting.Started
import Bounce.Execution.Starting.Bounded
import Bounce.Execution.Server.Refines
import Bounce.Execution.Peers.Basic
import Bounce.Execution.Peers.Joined
import Bounce.Execution.Peers.Echo
import Bounce.Execution.Server.AtRest
import Bounce.Execution.Server.ComesToRest
import Bounce.Objects.Buffer.Theorems.Values
import Bounce.Objects.SockAddress.OfPort
import Bounce.Execution.Timers.Repeated
