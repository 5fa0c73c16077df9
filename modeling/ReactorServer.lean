import ReactorServer.Http.Bearer
import ReactorServer.Http.Delimited
import ReactorServer.Http.Lookup
import ReactorServer.Framing.EndOfInput
import ReactorServer.Framing.RoundTrip
import ReactorServer.Framing.Limits
import ReactorServer.Framing.Routing
import ReactorServer.Framing.KeepAlive
import ReactorServer.Output.Closing
import ReactorServer.Output.Integrity
import ReactorServer.Output.Drain
import ReactorServer.Output.OneResponse
import ReactorServer.Reactor.Edge
import ReactorServer.Reactor.Armed
import ReactorServer.Reactor.Registration
import ReactorServer.Db.Tasks
import ReactorServer.Db.Store
import ReactorServer.Db.Auth
import ReactorServer.Db.Answer
import ReactorServer.Db.Pool
import ReactorServer.Db.Service
import ReactorServer.Db.Linear
import ReactorServer.Db.Cache
import ReactorServer.Db.Logout
import ReactorServer.Db.Register
import ReactorServer.Db.Books
import ReactorServer.Db.Waiting
import ReactorServer.Db.Monitor
import ReactorServer.Db.Locked
import ReactorServer.Db.Bodies
import ReactorServer.Db.Literals
import ReactorServer.Server.Defs
import ReactorServer.Server.Cases
import ReactorServer.Server.Refine
import ReactorServer.Server.Delivery
import ReactorServer.Server.Table
import ReactorServer.Server.Loops
import ReactorServer.Server.Accept
import ReactorServer.Server.Turns
import ReactorServer.Server.Order
import ReactorServer.Server.Deletion
import ReactorServer.Server.Sweep
import ReactorServer.Server.Idle
import ReactorServer.Server.Wishes
import ReactorServer.Server.Page
import ReactorServer.Server.Close
import ReactorServer.Server.Listen
import ReactorServer.Server.Submit
import ReactorServer.Buffer
import ReactorServer.Threads.Wakeup
import ReactorServer.Threads.Shutdown
import ReactorServer.Threads.Late
import ReactorServer.Threads.Exit
import ReactorServer.Threads.Startup
import ReactorServer.Threads.Limiter
