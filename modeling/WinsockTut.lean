import WinsockTut.Foundation.Runs
import WinsockTut.Foundation.BinaryHeap
import WinsockTut.Foundation.FirstMatch
import WinsockTut.Foundation.Word
import WinsockTut.Timer.Guarantees
import WinsockTut.Poller.Base
import WinsockTut.Select.Retirement
import WinsockTut.Select.EmptySets
import WinsockTut.Async.Subscriptions
import WinsockTut.Async.Gate
import WinsockTut.AsyncEvent.Removal
import WinsockTut.CompletionPort.Delivery
import WinsockTut.Overlapped.Callbacks
import WinsockTut.Poller.Exit
import WinsockTut.AsyncEvent.Ends
import WinsockTut.AsyncSelect.Ends
import WinsockTut.Select.Ends
import WinsockTut.Poller.Housekeeping
import WinsockTut.CompletionPort.Freed
import WinsockTut.CompletionPort.Lifetime
import WinsockTut.Select.Capacity
import WinsockTut.AsyncEvent.Handles
import WinsockTut.AsyncEvent.Signalled
import WinsockTut.Overlapped.Registry
import WinsockTut.Poller.Registered
import WinsockTut.Timer.Ids
import WinsockTut.Poller.Agreement
import WinsockTut.Poller.Dated
import WinsockTut.AsyncSelect.Readiness
import WinsockTut.Select.Readiness
import WinsockTut.Poller.Readiness
import WinsockTut.Foundation.Agenda
import WinsockTut.Timer.Pass
import WinsockTut.Timer.Fresh
import WinsockTut.Timer.Exact
import WinsockTut.Foundation.Buffer
import WinsockTut.SocketOpts.Stream
import WinsockTut.SocketOpts.Reading
import WinsockTut.SocketOpts.Writing
import WinsockTut.Foundation.ForEach
import WinsockTut.SocketOpts.Addresses
import WinsockTut.Overlap.ConnectContext
import WinsockTut.SocketOpts.FirstSuccess
import WinsockTut.Common.StringUtil
import WinsockTut.Timer.Repair
import WinsockTut.CompletionPort.View
import WinsockTut.PingPong.Server
import WinsockTut.PingPong.Accounts
import WinsockTut.PingPong.Tasks
import WinsockTut.PingPong.Lost
import WinsockTut.Poller.Timers
import WinsockTut.Echo.Accounts
import WinsockTut.Echo.Host
import WinsockTut.Echo.OnAsyncEvent
import WinsockTut.Echo.OnAsyncSelect
import WinsockTut.Echo.OnSelect
import WinsockTut.Echo.Sockets
import WinsockTut.Foundation.Sweep
import WinsockTut.Select.Dispatch
import WinsockTut.Timer.Clear
import WinsockTut.AsyncEvent.Records
import WinsockTut.AsyncSelect.Queue
import WinsockTut.Echo.Registered
