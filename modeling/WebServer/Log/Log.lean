import WebServer.Log.BlockQueue
import WebServer.Log.Members

/-!
# Log/Log — `src/src/log/log.cc`, in asynchronous mode

The threads `some i` call `Log::write`, and `none`, the write thread, runs `Log::_asyncWrite`.  A
step is what a thread does between two points where another may come in: it takes or leaves `_m`,
makes one turn in an operation of the queue, calls `fputs`, or hands `_buf` to `retrieveAll`.

`retrieveAll` clears memory from `_buf` on, before the push of its line and again after it, and the
platform `abi` says what it leaves of the members (`Log/Members`).  The queue and the file that the
pointers led to are not touched.

A line is the string that a `write` hands over, with the number of the critical section under `_m`
that made it; the numbers are not in the source.  Beside what the source keeps, a state holds the
calls of `fputs` in their order, and the lines of the `write`s that have returned.
-/

namespace WebServer

namespace Log

/-- What a `write` hands over. -/
structure Line where
  /-- How many critical sections came before the one that made it. -/
  no : ℕ
  text : Bytes
  deriving DecidableEq, Repr

/-- Where a thread stands, in `write` or in `_asyncWrite`. -/
inductive Place where
  /-- Outside `write`. -/
  | idle
  /-- The date has changed or the file is full: it is about to lock `_m`, to open another. -/
  | rotating (r : Record)
  /-- It holds `_m`, with the file to reopen. -/
  | reopening (r : Record)
  /-- It is about to lock `_m`, to write its line. -/
  | arriving (r : Record)
  /-- It holds `_m`, has its line in `_buf`, and asks whether there is a queue that is not full. -/
  | testing (no : ℕ)
  /-- It holds `_m`, and is in `push`. -/
  | pushing (line : Line)
  /-- It holds `_m`, and is about to call `fputs`. -/
  | direct (no : ℕ)
  /-- It holds `_m`, has handed its line over, and is about to call `retrieveAll`. -/
  | clearing (line : Line)
  /-- It is about to leave `_m`, and `write`. -/
  | leaving (line : Line)
  /-- The write thread, about to call `pop`. -/
  | looping
  /-- It is in `pop`. -/
  | popping
  /-- It has popped a line, and is about to lock `_m`. -/
  | holding (line : Line)
  /-- It holds `_m`, and is about to call `fputs`. -/
  | writing (line : Line)
  /-- It holds `_m`, and has written the line. -/
  | written
  /-- `pop` has returned false. -/
  | done
  deriving DecidableEq

/-- It holds `_m`. -/
def Place.holds : Place → Bool
  | .reopening _ | .testing _ | .pushing _ | .direct _ | .clearing _ | .leaving _ | .writing _
  | .written => true
  | .idle | .rotating _ | .arriving _ | .looping | .popping | .holding _ | .done => false

/-- The line that was popped and is not yet written. -/
def Place.hand : Place → List Line
  | .holding line | .writing line => [line]
  | _ => []

structure State (ι : Type) extends Guarded (Option ι) where
  /-- The queue that `_que` was made with. -/
  que : BlockQueue.State (Option ι) Line
  place : Option ι → Place
  /-- The lines passed to `fputs`. -/
  file : List Line
  /-- How many critical sections have made a line. -/
  sections : ℕ
  /-- The lines of the calls of `write` that have returned. -/
  returned : List Line

variable {ι : Type}

/-- The lines on their way to the file: in the hands of the write thread, then in the queue. -/
def State.waiting (s : State ι) : List Line := (s.place none).hand ++ s.que.queue.q

inductive Op (ι : Type) where
  /-- `write` is called.  `_today` and `_line_count` are read without a lock, so whether it
  `rotates` the file is left open. -/
  | enter (i : ι) (r : Record) (rotates : Bool)
  | lockRotation (i : ι)
  /-- `flush`, `fclose` and `fopen`, and `_m` is left.  `target` is whom the flush reaches. -/
  | reopen (i : ι) (target : Option (Option ι)) (opened : Bool)
  /-- `_m` is taken, and the line is made. -/
  | lock (i : ι)
  /-- `_que != nullptr and !_que->full()`, and if so the argument of `push`. -/
  | test (i : ι)
  /-- A turn in `_que->push`. -/
  | push (i : ι) (target : Option (Option ι))
  | fputs (i : ι)
  /-- `retrieveAll`. -/
  | clear (i : ι)
  | unlock (i : ι)
  /-- `flush`, which the logging macros call after `write`. -/
  | flush (target : Option (Option ι))
  /-- A wait in the queue ends without a notification. -/
  | wake (p : Option ι)
  /-- The write thread calls `_que->pop`. -/
  | callPop
  /-- The write thread, a turn in `pop`. -/
  | pop (target : Option (Option ι))
  /-- The write thread takes `_m`. -/
  | lockThread
  | fputsThread
  /-- The write thread leaves `_m`. -/
  | unlockThread

def Legal (s : State ι) : Op ι → Prop
  | .enter i _ _ => s.place (some i) = .idle
  | .lockRotation i => (∃ r, s.place (some i) = .rotating r) ∧ s.holder = none
  | .reopen i target _ =>
    (∃ r, s.place (some i) = .reopening r) ∧ BlockQueue.Legal s.que (.flush target)
  | .lock i => (∃ r, s.place (some i) = .arriving r) ∧ s.holder = none
  | .test i => ∃ no, s.place (some i) = .testing no
  | .push i target =>
    (∃ line, s.place (some i) = .pushing line) ∧ BlockQueue.Legal s.que (.run (some i) false target)
  | .fputs i => ∃ no, s.place (some i) = .direct no
  | .clear i => ∃ line, s.place (some i) = .clearing line
  | .unlock i => ∃ line, s.place (some i) = .leaving line
  | .flush target => BlockQueue.Legal s.que (.flush target)
  | .wake p => BlockQueue.Legal s.que (.wake p)
  | .callPop => s.place none = .looping
  | .pop target => s.place none = .popping ∧ BlockQueue.Legal s.que (.run none false target)
  | .lockThread => (∃ line, s.place none = .holding line) ∧ s.holder = none
  | .fputsThread => ∃ line, s.place none = .writing line
  | .unlockThread => s.place none = .written

variable [DecidableEq ι]

def State.goto (s : State ι) (p : Option ι) (place : Place) : State ι :=
  { s with place := Function.update s.place p place }

/-- After `init`: the queue is empty, and the write thread has been started. -/
def State.new (capacity : ℕ) : State ι where
  buf := .new 1024
  hasFp := true
  hasQue := true
  hasThread := true
  holder := none
  que := .new capacity
  place p := if p = none then .looping else .idle
  file := []
  sections := 0
  returned := []

/-- Whether a call on the queue is over, and what it returned. -/
def result (que : BlockQueue.State (Option ι) Line) (p : Option ι) : Option Bool :=
  match que.place p with
  | .idle ret => ret
  | _ => none

section Model

variable (abi : Abi (Guarded (Option ι)))

def exec (s : State ι) : Op ι → Exec (State ι)
  | .enter i r rotates => .ok (s.goto (some i) (if rotates then .rotating r else .arriving r))
  | .lockRotation i =>
    match s.place (some i) with
    | .rotating r => .ok { s.goto (some i) (.reopening r) with holder := some (some i) }
    | _ => .ok s
  | .reopen i target opened =>
    match s.place (some i) with
    | .reopening r => do
      deref s.hasQue
      let que ← BlockQueue.exec s.que (.flush target)
      deref s.hasFp
      assert (opened = true) "_fp != nullptr"
      return { s.goto (some i) (.arriving r) with que := que, hasFp := true, holder := none }
    | _ => .ok s
  | .lock i =>
    match s.place (some i) with
    | .arriving r => do
      let buf ← writeLine r.now r.level r.msg s.buf
      return { s.goto (some i) (.testing s.sections) with
        buf := buf, holder := some (some i), sections := s.sections + 1 }
    | _ => .ok s
  | .test i =>
    match s.place (some i) with
    | .testing no =>
      if s.hasQue = true then do
        let que ← BlockQueue.exec s.que .look
        if que.queue.full = true then return { s.goto (some i) (.direct no) with que := que }
        else do
          -- `_que` is read before the argument, which may null it.
          let (text, left) ← s.buf.retrieveAllTOString abi s.toGuarded
          let que ← BlockQueue.exec que (.call (some i) (.push ⟨no, text⟩))
          return { s.goto (some i) (.pushing ⟨no, text⟩) with toGuarded := left, que := que }
      else return s.goto (some i) (.direct no)
    | _ => .ok s
  | .push i target =>
    match s.place (some i) with
    | .pushing line => do
      let que ← BlockQueue.exec s.que (.run (some i) false target)
      match result que (some i) with
      | some _ => return { s.goto (some i) (.clearing line) with que := que }
      | none => return { s with que := que }
    | _ => .ok s
  | .fputs i =>
    match s.place (some i) with
    | .direct no => do
      let text ← s.buf.readString
      deref s.hasFp
      return { s.goto (some i) (.clearing ⟨no, text⟩) with file := s.file ++ [⟨no, text⟩] }
    | _ => .ok s
  | .clear i =>
    match s.place (some i) with
    | .clearing line =>
      .ok { s.goto (some i) (.leaving line) with toGuarded := s.buf.retrieveAll abi s.toGuarded }
    | _ => .ok s
  | .unlock i =>
    match s.place (some i) with
    | .leaving line =>
      .ok { s.goto (some i) .idle with holder := none, returned := s.returned ++ [line] }
    | _ => .ok s
  | .flush target => do
    deref s.hasQue
    let que ← BlockQueue.exec s.que (.flush target)
    return { s with que := que }
  | .wake p => do
    let que ← BlockQueue.exec s.que (.wake p)
    return { s with que := que }
  | .callPop => do
    deref s.hasQue
    let que ← BlockQueue.exec s.que (.call none .pop)
    return { s.goto none .popping with que := que }
  | .pop target => do
    let que ← BlockQueue.exec s.que (.run none false target)
    match result que none, que.popped.getLast? with
    | some true, some line => return { s.goto none (.holding line) with que := que }
    | some _, _ => return { s.goto none .done with que := que }
    | none, _ => return { s with que := que }
  | .lockThread =>
    match s.place none with
    | .holding line => .ok { s.goto none (.writing line) with holder := some none }
    | _ => .ok s
  | .fputsThread =>
    match s.place none with
    | .writing line => do
      deref s.hasFp
      return { s.goto none .written with file := s.file ++ [line] }
    | _ => .ok s
  | .unlockThread => .ok { s.goto none .looping with holder := none }

/-- The queue of `init`'s positive `maxsize`. -/
def machine (ι : Type) [DecidableEq ι] (abi : Abi (Guarded (Option ι))) :
    Machine Fault (State ι) (Op ι) where
  init s := ∃ capacity > 0, s = .new capacity
  legal := Legal
  exec := exec abi

end Model

end Log

end WebServer
