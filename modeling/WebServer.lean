import WebServer.Machinery.Loop
import WebServer.Machinery.Word
import WebServer.Machinery.Lines
import WebServer.Machinery.Regex
import WebServer.Machinery.HeapOrder
import WebServer.Machinery.CondVar
import WebServer.Machinery.Mutex
import WebServer.Machinery.Settling
import WebServer.Machinery.Refinement
import WebServer.Machinery.Walk
import WebServer.Machinery.Quoted
import WebServer.Machinery.Decimal
import WebServer.Machinery.Ledger
import WebServer.Machinery.Memory
import WebServer.Basic
import WebServer.Buffer.Model
import WebServer.Buffer.Cursors
import WebServer.Buffer.Fifo
import WebServer.Buffer.Reset
import WebServer.Http.Parse
import WebServer.Http.Message
import WebServer.Http.Grammar
import WebServer.Http.Response
import WebServer.Http.Conn
import WebServer.Http.Write
import WebServer.Http.Process
import WebServer.Http.Gather
import WebServer.Http.Confine
import WebServer.Http.Answer
import WebServer.Http.Framing
import WebServer.Http.Files
import WebServer.Http.Exchange
import WebServer.Http.Resources
import WebServer.Http.Read
import WebServer.Http.Sql
import WebServer.Http.Form
import WebServer.Http.Segments
import WebServer.Http.Login
import WebServer.Http.Post
import WebServer.Http.Accounts
import WebServer.Timer.Model
import WebServer.Timer.Sift
import WebServer.Timer.Runs
import WebServer.Timer.Expiry
import WebServer.Timer.Update
import WebServer.Timer.Descent
import WebServer.Timer.Removal
import WebServer.Timer.NextTick
import WebServer.Pool.ThreadPool
import WebServer.Pool.Wakeups
import WebServer.Pool.Tasks
import WebServer.Pool.Progress
import WebServer.Pool.SqlConnPool
import WebServer.Pool.Supply
import WebServer.Pool.Closing
import WebServer.Log.BlockQueue
import WebServer.Log.Queue
import WebServer.Log.Wakeups
import WebServer.Log.Close
import WebServer.Log.Format
import WebServer.Log.Members
import WebServer.Log.Log
import WebServer.Log.Locks
import WebServer.Log.Lines
import WebServer.Log.Effort
import WebServer.Log.Wiped
import WebServer.Log.WriteThread
import WebServer.Log.Destructor
import WebServer.Log.Shutdown
import WebServer.Log.Rotation
import WebServer.Log.Crowd
import WebServer.Server.Worker
import WebServer.Server.Rearm
import WebServer.Server.KeepAlive
import WebServer.Server.Session
import WebServer.Server.Dispatch
import WebServer.Server.Views
import WebServer.Server.Owners
import WebServer.Server.Reuse
import WebServer.Server.Users
import WebServer.Server.UserCount
import WebServer.Server.Quiet
import WebServer.Server.Batch
