import WebServer.Basic
import WebServer.Machinery.CondVar
import WebServer.Machinery.Machine

/-!
# Log/BlockQueue — `src/src/log/block_queue.hpp`

The threads `ι` call the operations of one queue of items `T`.  A step is one critical section under
`_m`, from where a thread has locked it to where it waits or returns, or one notification of
`close`.  `_q.top()`, which a `std::queue` does not have, is read as `_q.front()`.

Beside the queue, a state holds the items that were pushed and popped, and how it was when a `pop`
returned false.
-/

namespace WebServer

structure BlockQueue (T : Type) where
  q : List T
  capacity : ℕ
  isClosed : Bool
  deriving DecidableEq, Repr

namespace BlockQueue

variable {T : Type}

/-! ## The critical sections -/

/-- What a thread does when it lets go of `_m`. -/
inductive Outcome (T : Type) where
  | parks
  /-- It returns false. -/
  | refused
  | pushed (item : T)
  | popped (item : T)
  deriving DecidableEq, Repr

def new (capacity : ℕ) : BlockQueue T := ⟨[], capacity, false⟩

variable (b : BlockQueue T)

def size : ℕ := b.q.length

def full : Bool := b.capacity ≤ b.q.length

def empty : Bool := b.q.isEmpty

/-- `_q.front()`. -/
def front : Exec T :=
  match b.q with
  | [] => .error .outOfBounds
  | item :: _ => .ok item

/-- `push`, on entry or, when it comes `again`, after a wait: only then does it look at
`_is_closed`. -/
def push (again : Bool) (item : T) : BlockQueue T × Outcome T :=
  if again && b.isClosed then (b, .refused)
  else if b.capacity ≤ b.q.length then (b, .parks)
  else ({ b with q := b.q ++ [item] }, .pushed item)

/-- `pop`, on entry or after a wait. -/
def pop (again : Bool) : Exec (BlockQueue T × Outcome T) :=
  if again && b.isClosed then return (b, .refused)
  else if b.q.isEmpty then return (b, .parks)
  else do
    let item ← b.front
    return ({ b with q := b.q.tail }, .popped item)

/-- `popTimeout`, on entry or after a wait, which may have `expired`. -/
def popTimeout (again expired : Bool) : Exec (BlockQueue T × Outcome T) :=
  if again && expired then return (b, .refused) else b.pop again

/-! ## Many threads -/

/-- The operations in which a thread may wait. -/
inductive Call (T : Type) where
  | push (item : T)
  | pop
  | popTimeout
  deriving DecidableEq, Repr

/-- How far a thread is in such an operation. -/
inductive Stage where
  /-- It is about to lock `_m` for the first time. -/
  | fresh
  | parked
  /-- It was notified, and is about to lock `_m` again. -/
  | notified
  /-- It woke up or timed out without a notification, and is about to lock `_m` again. -/
  | woken
  deriving DecidableEq, Repr

/-- Where a thread stands. -/
inductive Place (T : Type) where
  /-- Outside the queue; `ret` is what its last call returned. -/
  | idle (ret : Option Bool)
  | within (call : Call T) (stage : Stage)
  /-- In `close`, about to notify the consumers. -/
  | closing
  /-- In `close`, about to notify the producers. -/
  | closingProducers
  deriving DecidableEq, Repr

/-- A call waits on `_cond_consumer` or on `_cond_producer`. -/
def Call.consumes : Call T → Bool
  | .push _ => false
  | .pop | .popTimeout => true

def Call.isPop : Call T → Bool
  | .pop => true
  | _ => false

def Stage.wait : Stage → Wait
  | .parked => .parked
  | .notified => .notified
  | .fresh | .woken => .away

/-- Where a thread stands to `_cond_consumer`, or to `_cond_producer`. -/
def Place.wait (consumers : Bool) : Place T → Wait
  | .within call stage => if call.consumes = consumers then stage.wait else .away
  | _ => .away

def Place.wake : Place T → Place T
  | .within call _ => .within call .notified
  | place => place

theorem Place.wait_wake {consumers : Bool} {place : Place T}
    (h : place.wait consumers = .parked) : place.wake.wait consumers = .notified := by
  cases place with
  | within call stage =>
    rw [Place.wait] at h
    split at h
    · exact if_pos ‹_›
    · cases h
  | _ => cases h

/-- `_cond_consumer`, or `_cond_producer`. -/
def cond (consumers : Bool) : CondVar (Place T) where
  wait := Place.wait consumers
  wake := Place.wake
  wait_wake _ h := Place.wait_wake h

section Wait

variable {c : Call T} {side : Bool}

/-- The other condition does not see a call. -/
theorem wait_other {stage : Stage} (h : c.consumes ≠ side) :
    (cond side).wait (.within c stage) = .away := if_neg h

theorem wait_fresh : (cond side).wait (.within c .fresh) = .away := ite_self _

theorem wait_woken : (cond side).wait (.within c .woken) = .away := ite_self _

theorem wait_parked_ne : (cond side).wait (.within c .parked) ≠ .notified := by
  show (if c.consumes = side then Wait.parked else .away) ≠ .notified
  split <;> exact Wait.noConfusion

end Wait

/-- The two conditions have no thread in common. -/
theorem wait_wake_other {consumers : Bool} (place : Place T)
    (h : (cond consumers).wait place = .parked) :
    (cond !consumers).wait ((cond consumers).wake place) = (cond !consumers).wait place := by
  cases place with
  | within call stage =>
    have hc : call.consumes = consumers := by
      by_contra hc
      have hwait : (cond consumers).wait (.within call stage) = .away := if_neg hc
      rw [hwait] at h
      cases h
    have hother : call.consumes ≠ !consumers := by
      rw [hc]
      exact Bool.self_ne_not consumers
    exact (if_neg hother).trans (if_neg hother).symm
  | _ => cases h

/-- The critical section of a call. -/
def turn (again expired : Bool) : Call T → Exec (BlockQueue T × Outcome T)
  | .push item => .ok (b.push again item)
  | .pop => b.pop again
  | .popTimeout => b.popTimeout again expired

/-- What a `pop` that returned false has left. -/
structure Denial (T : Type) where
  queue : BlockQueue T
  pushed : List T
  popped : List T

structure State (ι T : Type) where
  queue : BlockQueue T
  place : ι → Place T
  pushed : List T
  popped : List T
  /-- A `close` has notified the consumers. -/
  consumersFreed : Bool
  /-- A `close` has notified the producers as well, and has returned. -/
  closeReturned : Bool
  /-- One for each `pop` that returned false. -/
  denied : List (Denial T)

variable {ι : Type}

def State.new (capacity : ℕ) : State ι T :=
  ⟨.new capacity, fun _ => .idle none, [], [], false, false, []⟩

inductive Op (ι T : Type) where
  /-- A thread enters an operation. -/
  | call (i : ι) (c : Call T)
  /-- A thread locks `_m` and runs to where it waits or returns.  `target` is who its notification
  reaches, if it makes one. -/
  | run (i : ι) (expired : Bool) (target : Option ι)
  /-- A wait ends without a notification. -/
  | wake (i : ι)
  /-- `close`, as far as its critical section. -/
  | close (i : ι)
  /-- `close`, the notification of the consumers. -/
  | notifyConsumers (i : ι)
  /-- `close`, the notification of the producers. -/
  | notifyProducers (i : ι)
  /-- `flush`, and whom it reaches. -/
  | flush (target : Option ι)
  /-- `size`, `full` or `empty`. -/
  | look

def Legal (s : State ι T) : Op ι T → Prop
  | .call i _ => ∃ ret, s.place i = .idle ret
  | .run i _ target => ∃ c stage, s.place i = .within c stage ∧ stage ≠ .parked ∧
      (cond (!c.consumes)).Picks s.place target
  | .wake i => ∃ c, s.place i = .within c .parked
  | .close i => ∃ ret, s.place i = .idle ret
  | .notifyConsumers i => s.place i = .closing
  | .notifyProducers i => s.place i = .closingProducers
  | .flush target => (cond true).Picks s.place target
  | .look => True

variable [DecidableEq ι]

def State.goto (s : State ι T) (i : ι) (place : Place T) : State ι T :=
  { s with place := Function.update s.place i place }

/-- `notify_one` on one of the conditions. -/
def State.notifyOne (s : State ι T) (consumers : Bool) (target : Option ι) : State ι T :=
  { s with place := (cond consumers).notifyOne s.place target }

/-- What a critical section leaves. -/
def State.settle (s : State ι T) (i : ι) (c : Call T) (target : Option ι) :
    BlockQueue T × Outcome T → State ι T
  | (queue, .parks) => { s.goto i (.within c .parked) with queue := queue }
  | (queue, .refused) =>
    { s.goto i (.idle (some false)) with
      queue := queue
      denied := if c.isPop then s.denied ++ [⟨queue, s.pushed, s.popped⟩] else s.denied }
  | (queue, .pushed item) =>
    { (s.notifyOne true target).goto i (.idle (some true)) with
      queue := queue, pushed := s.pushed ++ [item] }
  | (queue, .popped item) =>
    { (s.notifyOne false target).goto i (.idle (some true)) with
      queue := queue, popped := s.popped ++ [item] }

def exec (s : State ι T) : Op ι T → Exec (State ι T)
  | .call i c => .ok (s.goto i (.within c .fresh))
  | .run i expired target =>
    match s.place i with
    | .within c stage => do
      let out ← s.queue.turn (stage ≠ .fresh) expired c
      return s.settle i c target out
    | _ => .ok s
  | .wake i =>
    match s.place i with
    | .within c _ => .ok (s.goto i (.within c .woken))
    | _ => .ok s
  | .close i => .ok { s.goto i .closing with queue := { s.queue with isClosed := true } }
  | .notifyConsumers i =>
    .ok { s with
      place := Function.update ((cond true).notifyAll s.place) i .closingProducers
      consumersFreed := true }
  | .notifyProducers i =>
    .ok { s with
      place := Function.update ((cond false).notifyAll s.place) i (.idle none)
      closeReturned := true }
  | .flush target => .ok (s.notifyOne true target)
  | .look => .ok s

/-- The constructor asserts that the capacity is positive. -/
def machine (ι T : Type) [DecidableEq ι] : Machine Fault (State ι T) (Op ι T) where
  init s := ∃ capacity > 0, s = .new capacity
  legal := Legal
  exec := exec

/-! ## What a thread's turn does -/

/-- A call has to wait: nothing to take, or no room. -/
def Blocks : Call T → Prop
  | .push _ => b.capacity ≤ b.q.length
  | .pop | .popTimeout => b.q = []

/-- **All that a turn can do.** -/
inductive Ran (s : State ι T) (i : ι) (stage : Stage) (expired : Bool) (target : Option ι) :
    Call T → State ι T → Prop
  | parks {c : Call T} (hopen : stage = .fresh ∨ s.queue.isClosed = false)
      (hblocks : s.queue.Blocks c) : Ran s i stage expired target c (s.goto i (.within c .parked))
  | refused {c : Call T} (hagain : stage ≠ .fresh)
      (hwhy : s.queue.isClosed = true ∨ c = .popTimeout ∧ expired = true) :
      Ran s i stage expired target c { s.goto i (.idle (some false)) with
        denied := if c.isPop then s.denied ++ [⟨s.queue, s.pushed, s.popped⟩] else s.denied }
  | pushed {item : T} (hopen : stage = .fresh ∨ s.queue.isClosed = false)
      (hroom : s.queue.q.length < s.queue.capacity) :
      Ran s i stage expired target (.push item)
        { (s.notifyOne true target).goto i (.idle (some true)) with
          queue := { s.queue with q := s.queue.q ++ [item] }, pushed := s.pushed ++ [item] }
  | popped {c : Call T} {item : T} {rest : List T}
      (hopen : stage = .fresh ∨ s.queue.isClosed = false) (hc : c.consumes = true)
      (hq : s.queue.q = item :: rest) :
      Ran s i stage expired target c
        { (s.notifyOne false target).goto i (.idle (some true)) with
          queue := { s.queue with q := rest }, popped := s.popped ++ [item] }

variable {s s' : State ι T} {i : ι} {c : Call T} {stage : Stage} {expired : Bool}
  {target : Option ι}

/-- `pop` returns false, waits, or takes the front. -/
theorem pop_cases (again : Bool) :
    (again = true ∧ b.isClosed = true ∧ b.pop again = .ok (b, .refused)) ∨
    (again = false ∨ b.isClosed = false) ∧
      (b.q = [] ∧ b.pop again = .ok (b, .parks) ∨
        ∃ item rest, b.q = item :: rest ∧
          b.pop again = .ok ({ b with q := rest }, .popped item)) := by
  rw [pop]
  cases hstop : again && b.isClosed
  · have hopen : again = false ∨ b.isClosed = false := Bool.and_eq_false_iff.mp hstop
    refine .inr ⟨hopen, ?_⟩
    rcases hq : b.q with _ | ⟨item, rest⟩
    · exact .inl ⟨rfl, rfl⟩
    · refine .inr ⟨item, rest, rfl, ?_⟩
      simp [front, hq]
  · obtain ⟨hagain, hclosed⟩ := Bool.and_eq_true_iff.mp hstop
    exact .inl ⟨hagain, hclosed, rfl⟩

theorem decide_ne_fresh {stage : Stage} (h : decide (stage ≠ .fresh) = false) :
    stage = .fresh := by
  simpa using h

/-- **A thread that is not parked can make its turn**, and does one of these. -/
theorem exec_run (hi : s.place i = .within c stage) (expired : Bool) (target : Option ι) :
    ∃ s', exec s (.run i expired target) = .ok s' ∧ Ran s i stage expired target c s' := by
  have hpop : ∀ c : Call T, c.consumes = true →
      (s.queue.Blocks c ↔ s.queue.q = []) → ∃ out,
        s.queue.pop (stage ≠ .fresh) = .ok out ∧
          Ran s i stage expired target c (s.settle i c target out) := by
    intro c hc hblocks
    obtain ⟨hagain, hclosed, hpop⟩ | ⟨hopen, ⟨hq, hpop⟩ | ⟨item, rest, hq, hpop⟩⟩ :=
      s.queue.pop_cases (stage ≠ .fresh)
    · exact ⟨_, hpop, .refused (of_decide_eq_true hagain) (.inl hclosed)⟩
    · exact ⟨_, hpop, .parks (hopen.imp_left decide_ne_fresh) (hblocks.mpr hq)⟩
    · exact ⟨_, hpop, .popped (hopen.imp_left decide_ne_fresh) hc hq⟩
  cases c with
  | push item =>
    simp only [exec, hi, turn, ok_bind, pure_eq_ok]
    refine ⟨_, rfl, ?_⟩
    rw [push]
    cases hstop : decide (stage ≠ .fresh) && s.queue.isClosed
    · have hopen := (Bool.and_eq_false_iff.mp hstop).imp_left decide_ne_fresh
      by_cases hfull : s.queue.capacity ≤ s.queue.q.length
      · rw [if_neg Bool.false_ne_true, if_pos hfull]
        exact .parks hopen hfull
      · rw [if_neg Bool.false_ne_true, if_neg hfull]
        exact .pushed hopen (not_le.mp hfull)
    · obtain ⟨hagain, hclosed⟩ := Bool.and_eq_true_iff.mp hstop
      rw [if_pos rfl]
      exact .refused (of_decide_eq_true hagain) (.inl hclosed)
  | pop =>
    obtain ⟨out, hout, hran⟩ := hpop .pop rfl Iff.rfl
    simp only [exec, hi, turn, hout, ok_bind, pure_eq_ok]
    exact ⟨_, rfl, hran⟩
  | popTimeout =>
    simp only [exec, hi, turn, popTimeout]
    cases hstop : decide (stage ≠ .fresh) && expired
    · obtain ⟨out, hout, hran⟩ := hpop .popTimeout rfl Iff.rfl
      rw [if_neg Bool.false_ne_true, hout, ok_bind, pure_eq_ok]
      exact ⟨_, rfl, hran⟩
    · obtain ⟨hagain, hexpired⟩ := Bool.and_eq_true_iff.mp hstop
      rw [if_pos rfl, pure_eq_ok, ok_bind, pure_eq_ok]
      exact ⟨_, rfl, .refused (of_decide_eq_true hagain) (.inr ⟨rfl, hexpired⟩)⟩

/-- **A turn that was made** is one of these. -/
theorem ran_of_exec (hi : s.place i = .within c stage)
    (he : exec s (.run i expired target) = .ok s') : Ran s i stage expired target c s' := by
  obtain ⟨s'', he', hran⟩ := exec_run hi expired target
  obtain rfl := Except.ok.inj (he'.symm.trans he)
  exact hran

theorem exec_wake (hi : s.place i = .within c .parked) :
    exec s (.wake i) = .ok (s.goto i (.within c .woken)) := by
  rw [exec, hi]

end BlockQueue

end WebServer
