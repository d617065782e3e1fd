import WebServer.Http.Conn
import WebServer.Machinery.Machine
import WebServer.Server.Dispatch

/-!
# Server/Users — the slots of `_users`, and the count of those that are open

The event loop accepts clients in `_dealListen` and gives each to the slot of its descriptor; the
loop, the workers and the timers close slots.  `init` and `close_conn` are one step each; between
the test of `user_count` and `init` a worker may come in.

A state remembers what each slot has called with its descriptor: that is not in the program.
-/

namespace WebServer

namespace Server

namespace Users

/-- A slot begins with a descriptor in `init`, and ends with `close`. -/
inductive Call where
  | init (fd : ℤ)
  | close (fd : ℤ)
  deriving DecidableEq, Repr

/-- The slots whose `_is_closed` is false. -/
def opened (users : ℤ → Option HttpConn) : Set ℤ :=
  {slot | ∃ c, users slot = some c ∧ c.isClosed = false}

structure State where
  users : ℤ → Option HttpConn
  /-- `HttpConn::user_count`. -/
  userCount : ℤ
  /-- The descriptor for which `_dealListen` has found room, on its way to `_addClient`. -/
  admitted : Option ℤ
  calls : ℤ → List Call

namespace State

def new : State where
  users _ := none
  userCount := 0
  admitted := none
  calls _ := []

variable (s : State)

/-- The open slots. -/
def opened : Set ℤ := Users.opened s.users

/-- A pass of `_dealListen`, as far as the test of `user_count`. -/
def accept (fd : ℤ) : Exec State :=
  if fd < 0 then .ok s
  else if MAX_FD ≤ s.userCount then do
    assert (0 < fd) "fd > 0"
    return s
  else .ok { s with admitted := some fd }

/-- `_addClient`, as far as `init`.  A slot that is not in `_users` is made there; `fresh` is what
the constructor finds in the memory it does not write. -/
def addClient (fresh : Iovec × Iovec × ParseState) (readAbi writeAbi : Abi Members) : Exec State :=
  match s.admitted with
  | none => .ok s
  | some fd => do
    assert (0 < fd) "fd > 0"
    let c := (s.users fd).getD (.new fresh.1 fresh.2.1 fresh.2.2)
    let (c, userCount) ← c.init readAbi writeAbi fd s.userCount
    return { s with
      users := Function.update s.users fd (some c)
      userCount
      admitted := none
      calls := Function.update s.calls fd (s.calls fd ++ [.init fd]) }

/-- `close_conn`. -/
def closeConn (slot : ℤ) : State :=
  match s.users slot with
  | none => s
  | some c =>
    let (c, userCount, closed) := c.closeConn s.userCount
    { s with
      users := Function.update s.users slot (some c)
      userCount
      calls := Function.update s.calls slot (s.calls slot ++ closed.map .close) }

end State

/-- Who closes a slot. -/
inductive Party where
  | loop
  | worker
  | timer
  deriving DecidableEq, Repr

inductive Op where
  | accept (fd : ℤ)
  | addClient (fresh : Iovec × Iovec × ParseState) (readAbi writeAbi : Abi Members)
  | close (party : Party) (slot : ℤ)

/-- `accept` returns a descriptor that no slot has open; a timer's callback runs in the event loop,
which is busy with a client it has admitted. -/
def Legal (s : State) : Op → Prop
  | .accept fd => s.admitted = none ∧
    ∀ slot c, s.users slot = some c → c.isClosed = false → c.fd ≠ fd
  | .addClient _ _ _ => s.admitted ≠ none
  | .close party slot => s.users slot ≠ none ∧ (party ≠ .worker → s.admitted = none)

def exec (s : State) : Op → Exec State
  | .accept fd => s.accept fd
  | .addClient fresh readAbi writeAbi => s.addClient fresh readAbi writeAbi
  | .close _ slot => .ok (s.closeConn slot)

def machine : Machine Fault State Op where
  init s := s = .new
  legal := Legal
  exec := exec

end Users

end Server

end WebServer
