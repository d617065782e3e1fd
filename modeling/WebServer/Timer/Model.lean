import WebServer.Basic
import WebServer.Machinery.Loop

/-!
# Timer/Model — `src/timer/timer.cc`, but for expiry

The heap is a vector of nodes, and `_ref` maps an id to the position of its node.  A time is a
number of nanoseconds since the epoch; each reading of the clock is an argument.  An access through
an index faults outside the vector.  `κ` is the type of callbacks.
-/

namespace WebServer

/-- A `tcb` may be the empty function. -/
structure TimerNode (κ : Type) where
  id : ℤ
  expire : ℤ
  tcb : Option κ
  deriving DecidableEq, Repr

/-- `operator<`. -/
def TimerNode.before {κ : Type} (a b : TimerNode κ) : Bool := a.expire < b.expire

structure Timer (κ : Type) where
  heap : List (TimerNode κ)
  ref : ℤ → Option ℕ

namespace Timer

variable {κ : Type}

/-- A value-initialised node. -/
def blank : TimerNode κ := ⟨0, 0, none⟩

/-- `Timer::Timer()`. -/
def new : Timer κ := ⟨List.replicate 64 blank, fun _ => none⟩

/-- `Clock::now() + Ms(timeout)`. -/
def deadline (now timeout : ℤ) : ℤ := now + timeout * 1000000

variable (t : Timer κ)

/-- `_heap[i]`. -/
def nodeAt (i : ℕ) : Exec (TimerNode κ) :=
  match t.heap[i]? with
  | some node => .ok node
  | none => .error .outOfBounds

/-- `_ref[id] = i`. -/
def setRef (id : ℤ) (i : ℕ) : Timer κ := { t with ref := Function.update t.ref id (some i) }

def swap (i j : ℕ) : Exec (Timer κ) := do
  assert (i < t.heap.length) "i >= 0 and i < _heap.size()"
  assert (j < t.heap.length) "j >= 0 and j < _heap.size()"
  let a ← t.nodeAt i
  let b ← t.nodeAt j
  let t := { t with heap := (t.heap.set i b).set j a }
  let a ← t.nodeAt i
  let t := t.setRef a.id i
  let b ← t.nodeAt j
  return t.setRef b.id j

/-- `(i - 1) / 2` in `size_t`.  Of the positions of a vector, only 0 wraps. -/
def parent (i : ℕ) : ℕ := if i = 0 then (2 ^ 64 - 1) / 2 else (i - 1) / 2

/-- One pass of the loop of `_siftup`. -/
def siftupPass (s : Timer κ × ℕ) : Exec (Loop.Pass (Timer κ × ℕ) (Timer κ)) := do
  let (t, i) := s
  let j := parent i
  let a ← t.nodeAt j
  let b ← t.nodeAt i
  if a.before b then return .exit t
  else
    let t ← t.swap i j
    return .next (t, j)

def siftup (i : ℕ) : Exec (Timer κ) := do
  assert (i < t.heap.length) "i >= 0 and i < _heap.size()"
  Loop.run .running siftupPass (t.heap.length + 1) (t, i)

/-- The child that a pass of `_siftdown` looks at, with the left one at `j`. -/
def child (j : ℕ) : Exec ℕ :=
  if j + 1 < t.heap.length then do
    let a ← t.nodeAt (j + 1)
    let b ← t.nodeAt j
    return if a.before b then j + 1 else j
  else return j

/-- One pass of the loop of `_siftdown`. -/
def siftdownPass (s : Timer κ × ℕ) : Exec (Loop.Pass (Timer κ × ℕ) (Timer κ)) :=
  let (t, i) := s
  if i * 2 + 1 < t.heap.length then do
    let j ← t.child (i * 2 + 1)
    let a ← t.nodeAt i
    let b ← t.nodeAt j
    if a.before b then return .exit t
    else
      let t ← t.swap i j
      return .next (t, j)
  else return .exit t

def siftdown (i : ℕ) : Exec (Timer κ) := do
  assert (i < t.heap.length) "i >= 0 and i < _heap.size()"
  Loop.run .running siftdownPass (t.heap.length + 1) (t, i)

def adjustExpire (id now timeout : ℤ) : Exec (Timer κ) :=
  match t.ref id with
  | none => .error (.assertion "_ref.find(id) != _ref.end()")
  | some i => do
    let node ← t.nodeAt i
    let t := { t with heap := t.heap.set i { node with expire := deadline now timeout } }
    t.siftdown i

def add (id now timeout : ℤ) (tcb : Option κ) : Exec (Timer κ) := do
  assert (0 ≤ id) "id >= 0"
  match t.ref id with
  | none =>
    let i := t.heap.length
    let t := t.setRef id i
    let t := { t with heap := t.heap ++ [TimerNode.mk id (deadline now timeout) tcb] }
    t.siftup i
  | some i =>
    let node ← t.nodeAt i
    return { t with heap := t.heap.set i ⟨node.id, deadline now timeout, tcb⟩ }

end Timer

end WebServer
