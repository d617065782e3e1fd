import WebServer.Http.Write

/-!
# Server/Worker — what a worker does with a connection (`src/server/server.cc`)

`_onWrite`, `_onProcess` and `_closeConn`, with the calls they make on the epoll instance and on
descriptors returned as a list of `Act`s.
-/

namespace WebServer

namespace Epoller

def EPOLLIN : UInt32 := 0x1

def EPOLLOUT : UInt32 := 0x4

def EPOLLRDHUP : UInt32 := 0x2000

def EPOLLONESHOT : UInt32 := 0x40000000

def EPOLLET : UInt32 := 0x80000000

/-- The system calls of a worker. -/
inductive Act where
  | epollMod (fd : ℤ) (events : UInt32)
  | epollDel (fd : ℤ)
  | close (fd : ℤ)
  deriving DecidableEq, Repr

def modFd (fd : ℤ) (events : UInt32) : List Act := if fd < 0 then [] else [.epollMod fd events]

def delFd (fd : ℤ) : List Act := if fd < 0 then [] else [.epollDel fd]

end Epoller

namespace Server

open Epoller

def EAGAIN : ℤ := 11

/-- `_listen_event` and `_conn_event`. -/
structure Events where
  listen : UInt32
  conn : UInt32
  deriving DecidableEq, Repr

/-- `HttpConn::is_ET`. -/
def Events.isET (e : Events) : Bool := e.conn &&& EPOLLET != 0

def initEventMode (triggerMode : ℤ) : Events :=
  let listen := EPOLLRDHUP
  let conn := EPOLLONESHOT ||| EPOLLRDHUP
  if triggerMode = 0 then ⟨listen, conn⟩
  else if triggerMode = 1 then ⟨listen, conn ||| EPOLLET⟩
  else if triggerMode = 2 then ⟨listen ||| EPOLLET, conn⟩
  else if triggerMode = 3 then ⟨listen ||| EPOLLET, conn ||| EPOLLET⟩
  else ⟨listen ||| EPOLLET, conn ||| EPOLLET⟩

variable (events : Events) (srcDir : Bytes) (sys : Sys) (db : Mysql)

/-- `_closeConn`, with what becomes of `user_count`. -/
def closeConn (userCount : ℤ) (client : HttpConn) : HttpConn × ℤ × List Act :=
  let acts := delFd client.fd
  let (client, userCount, closed) := client.closeConn userCount
  (client, userCount, acts ++ closed.map .close)

def onProcess (client : HttpConn) : Exec (HttpConn × List Act) := do
  let (processed, client) ← client.process srcDir sys db
  if processed then return (client, modFd client.fd (events.conn ||| EPOLLOUT))
  else return (client, modFd client.fd (events.conn ||| EPOLLIN))

/-- `_onWrite` once `write` has returned `len`; the conversion to `int` keeps the low half of it. -/
def afterWrite (userCount len : ℤ) (s : HttpConn.Sending) :
    Exec (HttpConn.Sending × ℤ × List Act) :=
  let ret := Word.int32 len
  let (conn, left, acts) := closeConn userCount s.conn
  if s.conn.getBytesToWrite = 0 then
    if s.conn.isKeepAlive then do
      let (conn, acts) ← onProcess events srcDir sys db s.conn
      return ({ s with conn }, userCount, acts)
    else return ({ s with conn }, left, acts)
  else if ret < 0 then
    if s.saveErrno = EAGAIN then
      return (s, userCount, modFd s.conn.fd (events.conn ||| EPOLLOUT))
    else return ({ s with conn }, left, acts)
  else return ({ s with conn }, left, acts)

/-- `_onWrite`, on a connection and what its socket has sent of it. -/
def onWrite (abi : Abi Members) (files : ℕ → Bytes) (io : ℕ → HttpConn.Writev) (userCount : ℤ)
    (s : HttpConn.Sending) : Exec (HttpConn.Sending × ℤ × List Act) := do
  let (len, s) ← HttpConn.write abi files events.isET io { s with saveErrno := 0 }
  afterWrite events srcDir sys db userCount len s

end Server

end WebServer
