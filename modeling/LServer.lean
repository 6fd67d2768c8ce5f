import LServer.Basic
import LServer.Vm.Machine
import LServer.Vm.Exclusion
import LServer.Program.Op
import LServer.Program.Heap
import LServer.Program.Feed
import LServer.Text.Decimal
import LServer.Text.Json
import LServer.Program.TryParse
import LServer.Program.Order
import LServer.Http.Request
import LServer.Http.Response
import LServer.Http.Session
import LServer.Http.Receive
import LServer.Http.Sinkhole
import LServer.Session.Cycle
import LServer.Session.Machine
import LServer.Session.KeepAlive
import LServer.Session.Restart
import LServer.Server.Accept
import LServer.Pool.Basic
import LServer.Pool.Holders
import LServer.Pool.Accounting
import LServer.Pool.QueueBuffer
import LServer.Sync.TriggerGuard
import LServer.Server.ContextPool
import LServer.Server.Sessions
import LServer.Server.Reuse
import LServer.Server.Machine
