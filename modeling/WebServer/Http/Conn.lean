import WebServer.Http.Parse
import WebServer.Http.Response
import WebServer.Machinery.Span

/-!
# Http/Conn — `src/http/http_conn.cc`

A connection holds a request, its response, and the two-entry gather list that `writev` takes the
response's bytes from.  The statics `is_ET` and `src_dir` are parameters, and so are the socket, the
mapped files and the system.  `_addr` is left out: only logging reads it.
-/

namespace WebServer

/-- What an `iov_base` can point into.  An address nobody vouches for is `wild`. -/
inductive Block where
  /-- The vector of `_write_buf`. -/
  | writeBuf
  /-- The file mapped at an address. -/
  | mapping (addr : ℕ)
  | wild (addr : ℕ)
  deriving DecidableEq, Repr

/-- `iov_base` is the block and the offset, `iov_len` the length. -/
abbrev Iovec := Span Block

/-- The members of a connection from `_read_buf` on. -/
structure Members where
  readBuf : Buffer
  writeBuf : Buffer
  request : HttpRequest
  response : HttpResponse
  version : Bytes

/-- `_iov_count` counts up from 0; its `int` is taken not to overflow. -/
structure HttpConn extends Members where
  fd : ℤ
  isClosed : Bool
  iovCount : ℕ
  iov0 : Iovec
  iov1 : Iovec

namespace HttpConn

/-- `HttpConn::HttpConn()`.  It leaves `_iov` and the request's state as it finds them. -/
def new (iov0 iov1 : Iovec) (state : ParseState) : HttpConn :=
  { readBuf := .new 1024
    writeBuf := .new 1024
    request := { HttpRequest.blank with state }
    response := .new
    version := []
    fd := -1
    isClosed := true
    iovCount := 0
    iov0
    iov1 }

/-- `init`, with what becomes of `user_count`.  `readAbi` and `writeAbi` are the effects of the two
`memset`s. -/
def init (readAbi writeAbi : Abi Members) (socketFd userCount : ℤ) (c : HttpConn) :
    Exec (HttpConn × ℤ) := do
  assert (0 < socketFd) "socket_fd > 0"
  let m := c.readBuf.retrieveAll readAbi c.toMembers
  let m := m.writeBuf.retrieveAll writeAbi m
  let c := { c with
    toMembers := { m with version := str "1.1" }
    fd := socketFd
    isClosed := false }
  return (c, userCount + 1)

/-- `close_conn`, with what becomes of `user_count` and the descriptors closed. -/
def closeConn (userCount : ℤ) (c : HttpConn) : HttpConn × ℤ × List ℤ :=
  if c.isClosed = false then ({ c with isClosed := true }, userCount - 1, [c.fd])
  else (c, userCount, [])

def getBytesToWrite (c : HttpConn) : ℤ := Word.int32 (Word.add c.iov0.len c.iov1.len)

def isKeepAlive (c : HttpConn) : Bool := c.request.isKeepAlive

/-! ## `process` -/

/-- The end of `process`: the two entries of the gather list.  `p` is the write buffer's read
position. -/
def setIov (p : ℕ) (c : HttpConn) : HttpConn :=
  let c := { c with
    iov0 := ⟨.writeBuf, p, c.writeBuf.getReadableBytes⟩
    iovCount := c.iovCount + 1 }
  match c.response.getFile with
  | some addr =>
    if 0 < c.response.getFileLen then
      { c with
        iov1 := ⟨.mapping addr, 0, c.response.getFileLen.toNat⟩
        iovCount := c.iovCount + 1 }
    else c
  | none => c

def process (srcDir : Bytes) (sys : Sys) (db : Mysql) (c : HttpConn) : Exec (Bool × HttpConn) :=
  let request := c.request.init
  if c.readBuf.getReadableBytes ≤ 0 then return (false, { c with request })
  else do
    let (parsed, request, readBuf) ← request.parse db c.readBuf
    let (isKeepAlive, code) := if parsed then (request.isKeepAlive, 200) else (false, 400)
    let (response, _) := c.response.init srcDir request.path isKeepAlive code
    let (response, writeBuf, _) ← response.makeResponse sys c.writeBuf
    let p ← writeBuf.getReadPos
    return (true, { c with request, readBuf, response, writeBuf }.setIov p)

/-! ## `write` -/

/-- How the socket meets one `writev`: by a value ≤ 0, or by taking up to `ret` bytes.  `errno` is
the thread's afterwards. -/
structure Writev where
  ret : ℤ
  errno : ℤ
  deriving DecidableEq, Repr

/-- A connection in `write`, with the bytes its socket has sent, the number of `writev`s it has met,
and `*save_errno`. -/
structure Sending where
  conn : HttpConn
  sent : Bytes
  calls : ℕ
  saveErrno : ℤ

/-- The memory an `iovec` of the connection can lie in. -/
def mem (files : ℕ → Bytes) (c : HttpConn) : Block → Bytes
  | .writeBuf => c.writeBuf.buf
  | .mapping addr => files addr
  | .wild _ => []

/-- The gather list that `writev` is given. -/
def iov (c : HttpConn) : List Iovec := [c.iov0, c.iov1].take c.iovCount

variable (abi : Abi Members) (files : ℕ → Bytes) (isET : Bool) (io : ℕ → Writev)

/-- `writev(_fd, _iov, _iov_count)`. -/
def writev (s : Sending) : Exec (ℤ × Sending) :=
  if s.conn.iovCount ≤ 2 ∧ ∀ v ∈ s.conn.iov, v.Within (s.conn.mem files) then
    let n := min (io s.calls).ret.toNat (Span.total s.conn.iov)
    return (if (io s.calls).ret ≤ 0 then (io s.calls).ret else n,
      { s with
        sent := s.sent ++ (Span.gather (s.conn.mem files) s.conn.iov).take n
        calls := s.calls + 1 })
  else .error .outOfBounds

/-- What `write` does with the gather list after `writev` has taken `l` bytes. -/
def took (l : ℕ) (c : HttpConn) : Exec HttpConn :=
  if c.iov0.len < l then
    let step := l - c.iov0.len
    return { c with
      iov1 := ⟨c.iov1.block, c.iov1.offset + step, Word.sub c.iov1.len step⟩
      toMembers := c.writeBuf.retrieveAll abi c.toMembers
      iov0 := ⟨c.iov0.block, c.iov0.offset, 0⟩ }
  else do
    let writeBuf ← c.writeBuf.retrieve l
    return { c with
      iov0 := ⟨c.iov0.block, c.iov0.offset + l, c.iov0.len - l⟩
      writeBuf }

/-- One pass of the loop of `write`. -/
def writePass (s : Sending) : Exec (Loop.Pass Sending (ℤ × Sending)) := do
  let errno := (io s.calls).errno
  let (len, s) ← writev files io s
  if len ≤ 0 then return .exit (len, { s with saveErrno := errno })
  else if s.conn.iov0.len = 0 ∧ s.conn.iov1.len = 0 then return .exit (len, s)
  else
    let conn ← s.conn.took abi len.toNat
    let s := { s with conn }
    if isET ∨ 10240 < conn.getBytesToWrite then return .next s else return .exit (len, s)

/-- `write`.  A pass that goes round has sent a byte, so there are no more passes than that. -/
def write (s : Sending) : Exec (ℤ × Sending) :=
  Loop.run .running (writePass abi files isET io) (s.conn.iov0.len + s.conn.iov1.len + 1) s

end HttpConn

end WebServer
