import WebServer.Machinery.Machine
import WebServer.Machinery.Threads
import WebServer.Server.Worker
import WebServer.Timer.Model

/-!
# Server/Dispatch — the event loop, its timer, and the workers, on all connections at once

A step is one client accepted, one event delivered and handled, one timer expired, or one step of a
worker in its task: a call on the `HttpConn`, or the `modFd` or `_closeConn` that ends the task.
What a call on the `HttpConn` returns is chosen by the run.

That a timer expires is idealised: in the program `getNextTick` throws on every timer that is
reached (`Timer/Expiry`), so with idle timers on the loop gets no further than its first call of it.
With them off no timer is set, and none expires.

A slot of `_users` remembers which accepted client is in it, a task for which client it was made,
and the log what each task has done and to whom: none of these is in the program.
-/

namespace WebServer

namespace Epoller

def EPOLLERR : UInt32 := 0x8

def EPOLLHUP : UInt32 := 0x10

/-- How a descriptor stands in the epoll instance. -/
inductive Interest where
  | absent
  | disarmed
  | armed (events : UInt32)
  deriving DecidableEq, Repr

/-- What a system call does to a descriptor in the epoll instance: one that is not in it cannot be
modified, and one that is closed is no longer in it. -/
def Act.on : Act → Interest → Interest
  | .epollMod _ _, .absent => .absent
  | .epollMod _ events, _ => .armed events
  | .epollDel _, _ | .close _, _ => .absent

def Act.fd : Act → ℤ
  | .epollMod fd _ | .epollDel fd | .close fd => fd

def perform (interest : ℤ → Interest) (acts : List Act) : ℤ → Interest :=
  acts.foldl (fun f act => Function.update f act.fd (act.on (f act.fd))) interest

/-- The kernel reports an event: `EPOLLONESHOT` disarms the descriptor. -/
def Interest.report : Interest → Interest
  | .armed events => if events &&& EPOLLONESHOT ≠ 0 then .disarmed else .armed events
  | interest => interest

/-- The events that may be reported for a mask. -/
def reportable (events : UInt32) : UInt32 :=
  (events &&& (EPOLLIN ||| EPOLLOUT ||| EPOLLRDHUP)) ||| EPOLLHUP ||| EPOLLERR

end Epoller

namespace Server

open Epoller

def MAX_FD : ℤ := 65536

namespace Dispatch

/-- An `HttpConn` in `_users`, and the client that it was last initialised for. -/
structure Slot where
  isClosed : Bool
  client : ℕ
  deriving DecidableEq, Repr

inductive Kind where
  | onRead
  | onWrite
  deriving DecidableEq, Repr

/-- A task in the thread pool, with its number and the client whose event made it. -/
structure Task where
  no : ℕ
  kind : Kind
  fd : ℤ
  client : ℕ
  deriving DecidableEq, Repr

/-- Where a worker is in a task. -/
inductive Pc where
  /-- About to call `read` or `write`. -/
  | io
  /-- About to call `process`. -/
  | process
  /-- About to call `modFd`. -/
  | rearm (events : UInt32)
  /-- About to call `_closeConn`. -/
  | close
  deriving DecidableEq, Repr

/-- What a task has done: a call on the `HttpConn`, or one of the two calls that end it. -/
inductive Deed where
  | touch
  | modFd
  | closeConn
  deriving DecidableEq, Repr

/-- An entry of the log: `on` is the client in the slot at the time. -/
structure Entry where
  task : Task
  deed : Deed
  on : Option ℕ
  deriving DecidableEq, Repr

/-- What the calls on an `HttpConn` return. -/
structure Outcome where
  ret : ℤ
  errno : ℤ
  bytesToWrite : ℤ
  isKeepAlive : Bool
  processed : Bool
  deriving DecidableEq, Repr

structure Config where
  listenFd : ℤ
  timeoutMs : ℤ
  triggerMode : ℤ
  deriving DecidableEq, Repr

/-- `_conn_event`. -/
def Config.connEvent (cfg : Config) : UInt32 := (initEventMode cfg.triggerMode).conn

/-! ## The course of a task -/

section Task

variable (connEvent : UInt32) (o : Outcome)

/-- `_onRead`, after `read`. -/
def afterRead : Pc := if o.ret ≤ 0 ∧ o.errno ≠ EAGAIN then .close else .process

/-- `_onWrite`, after `write`. -/
def afterWrite : Pc :=
  if o.bytesToWrite = 0 then if o.isKeepAlive then .process else .close
  else if o.ret < 0 then
    if o.errno = EAGAIN then .rearm (connEvent ||| EPOLLOUT) else .close
  else .close

/-- `_onProcess`, after `process`. -/
def afterProcess : Pc :=
  if o.processed then .rearm (connEvent ||| EPOLLOUT) else .rearm (connEvent ||| EPOLLIN)

def Pc.next (kind : Kind) : Pc → Pc
  | .io =>
    match kind with
    | .onRead => afterRead o
    | .onWrite => afterWrite connEvent o
  | .process => afterProcess connEvent o
  | pc => pc

end Task

/-! ## The server -/

structure State (ι : Type) where
  users : ℤ → Option Slot
  /-- `HttpConn::user_count`. -/
  userCount : ℤ
  interest : ℤ → Interest
  /-- The deadline of the timer on a slot. -/
  deadline : ℤ → Option ℤ
  now : ℤ
  /-- The tasks in the thread pool. -/
  queue : List Task
  worker : ι → Option (Task × Pc)
  clients : ℕ
  tasks : ℕ
  log : List Entry

variable {ι : Type}

namespace State

def new : State ι where
  users _ := none
  userCount := 0
  interest _ := .absent
  deadline _ := none
  now := 0
  queue := []
  worker _ := none
  clients := 0
  tasks := 0
  log := []

variable (s : State ι)

/-- The client in a slot. -/
def clientAt (fd : ℤ) : Option ℕ := (s.users fd).map Slot.client

def isOpen (fd : ℤ) : Bool := (s.users fd).any fun slot => !slot.isClosed

/-- `_closeConn`: `delFd` and `close_conn`. -/
def closeConn (fd : ℤ) : State ι :=
  match s.users fd with
  | none => s
  | some slot =>
    { s with
      interest := perform s.interest (delFd fd ++ if slot.isClosed then [] else [.close fd])
      users := Function.update s.users fd (some { slot with isClosed := true })
      userCount := if slot.isClosed then s.userCount else s.userCount - 1 }

/-- `addTask` of a `_onRead` or `_onWrite` for the client in a slot. -/
def addTask (kind : Kind) (fd : ℤ) (slot : Slot) : State ι :=
  { s with queue := s.queue ++ [⟨s.tasks, kind, fd, slot.client⟩], tasks := s.tasks + 1 }

/-- `_extendTime`, which is not defined in the program: it postpones a deadline. -/
def extendTime (fd : ℤ) (extend : ℕ) : State ι :=
  { s with deadline := Function.update s.deadline fd ((s.deadline fd).map (· + extend)) }

/-- A pass of `_dealListen` with the descriptor that `accept` returned, and `_addClient`. -/
def accept (cfg : Config) (fd : ℤ) : Exec (State ι) :=
  if fd < 0 then .ok s
  else if MAX_FD ≤ s.userCount then .ok s
  else do
    assert (0 < fd) "fd > 0"
    return { s with
      users := Function.update s.users fd (some ⟨false, s.clients⟩)
      userCount := s.userCount + 1
      clients := s.clients + 1
      deadline :=
        if 0 < cfg.timeoutMs then
          Function.update s.deadline fd (some (Timer.deadline s.now cfg.timeoutMs))
        else s.deadline
      interest := Function.update s.interest fd (.armed (EPOLLIN ||| cfg.connEvent)) }

/-- The kernel reports `events` on a client's descriptor, and `start` handles them. -/
def deliver (fd : ℤ) (events : UInt32) (extend : ℕ) : Exec (State ι) :=
  match s.users fd with
  | none => .error (.assertion "_users.find(fd) != _users.end()")
  | some slot =>
    let s := { s with interest := Function.update s.interest fd (s.interest fd).report }
    if events &&& (EPOLLRDHUP ||| EPOLLHUP ||| EPOLLERR) ≠ 0 then .ok (s.closeConn fd)
    else if events &&& EPOLLIN ≠ 0 then .ok ((s.extendTime fd extend).addTask .onRead fd slot)
    else if events &&& EPOLLOUT ≠ 0 then .ok ((s.extendTime fd extend).addTask .onWrite fd slot)
    else .ok s

def record (task : Task) (deed : Deed) : State ι :=
  { s with log := s.log ++ [⟨task, deed, s.clientAt task.fd⟩] }

variable [DecidableEq ι]

def goto (i : ι) (place : Option (Task × Pc)) : State ι :=
  { s with worker := Function.update s.worker i place }

/-- A worker makes the next call of its task. -/
def work (cfg : Config) (i : ι) (o : Outcome) : State ι :=
  match s.worker i with
  | some (task, .rearm events) =>
    { (s.record task .modFd).goto i none with
      interest := perform s.interest (modFd task.fd events) }
  | some (task, .close) => ((s.record task .closeConn).goto i none).closeConn task.fd
  | some (task, pc) =>
    (s.record task .touch).goto i (some (task, pc.next cfg.connEvent o task.kind))
  | none => s

end State

inductive Op (ι : Type) where
  | accept (fd : ℤ)
  | deliver (fd : ℤ) (events : UInt32) (extend : ℕ)
  /-- Time passes. -/
  | tick (elapsed : ℕ)
  /-- The timer on a slot fires. -/
  | expire (fd : ℤ)
  /-- A worker takes the first task. -/
  | take (i : ι)
  /-- A worker makes the next call of its task, with what the calls on the `HttpConn` return. -/
  | work (i : ι) (o : Outcome)

/-- `accept` returns a descriptor that is not open, which the standard input always is; `epoll_wait`
reports what was asked for on an armed descriptor; a timer fires once its deadline has passed. -/
def Legal (cfg : Config) (s : State ι) : Op ι → Prop
  | .accept fd => 0 < fd ∧ fd ≠ cfg.listenFd ∧ s.isOpen fd = false
  | .deliver fd events _ => events ≠ 0 ∧
    ∃ mask, s.interest fd = .armed mask ∧ events &&& reportable mask = events
  | .tick _ => True
  | .expire fd => 0 < cfg.timeoutMs ∧ ∃ d, s.deadline fd = some d ∧ d ≤ s.now
  | .take i => s.worker i = none ∧ s.queue ≠ []
  | .work i _ => s.worker i ≠ none

variable [DecidableEq ι]

def exec (cfg : Config) (s : State ι) : Op ι → Exec (State ι)
  | .accept fd => s.accept cfg fd
  | .deliver fd events extend => s.deliver fd events extend
  | .tick elapsed => .ok { s with now := s.now + elapsed }
  | .expire fd => .ok { s.closeConn fd with deadline := Function.update s.deadline fd none }
  | .take i =>
    match s.queue with
    | [] => .ok s
    | task :: rest => .ok { s.goto i (some (task, .io)) with queue := rest }
  | .work i o => .ok (s.work cfg i o)

def machine (ι : Type) [DecidableEq ι] (cfg : Config) : Machine Fault (State ι) (Op ι) where
  init s := s = .new
  legal := Legal cfg
  exec := exec cfg

end Dispatch

end Server

end WebServer
