import WebServer.Basic
import WebServer.Machinery.CondVar
import WebServer.Machinery.Machine

/-!
# Pool/ThreadPool — `src/src/pool/thread_pool.hpp`

The workers are the threads `ι`, and `τ` is the type of tasks.  A step is one critical section under
`Pool::m`, one notification, or the end of a task.  `addTask` and the destructor notify in a step of
their own, after they have let go of `m`.

Beside the pool, a state holds what has happened: the jobs added, taken and finished.  A job is a
task and the number of the `addTask` call that brought it.
-/

namespace WebServer

namespace ThreadPool

structure Job (τ : Type) where
  no : ℕ
  task : τ
  deriving DecidableEq, Repr

/-- Where a worker stands. -/
inductive Worker (τ : Type) where
  /-- Awake without a task, and about to lock `m`. -/
  | ready
  | running (job : Job τ)
  /-- In `cond.wait`. -/
  | parked
  /-- Notified in `cond.wait`, and about to lock `m` again. -/
  | notified
  /-- Out of its loop. -/
  | left
  deriving DecidableEq, Repr

structure Pool (τ : Type) where
  isClosed : Bool
  taskQue : List (Job τ)

variable {ι τ : Type}

/-- `cond`. -/
def cond : CondVar (Worker τ) where
  wait
    | .parked => .parked
    | .notified => .notified
    | _ => .away
  wake _ := .notified
  wait_wake _ _ := rfl

theorem wait_parked_iff {worker : Worker τ} : cond.wait worker = .parked ↔ worker = .parked := by
  cases worker <;> simp [cond]

/-- One pass of a worker's loop, up to where it lets go of `m`: the pool, and where the worker
stands then. -/
def Pool.turn (pool : Pool τ) : Pool τ × Worker τ :=
  match pool.taskQue with
  | job :: rest => ({ pool with taskQue := rest }, .running job)
  | [] => if pool.isClosed then (pool, .left) else (pool, .parked)

structure State (ι τ : Type) where
  pool : Pool τ
  place : ι → Worker τ
  /-- The calls of `addTask` that have put their task into the queue and have not notified. -/
  pending : ℕ
  /-- The destructor has notified. -/
  notifiedAll : Bool
  added : List (Job τ)
  taken : List (Job τ)
  finished : List (Job τ)
  /-- How many tasks had been added when a worker last left. -/
  drained : ℕ

/-- `ThreadPool::ThreadPool`. -/
def State.new : State ι τ := ⟨⟨false, []⟩, fun _ => .ready, 0, false, [], [], [], 0⟩

inductive Op (ι τ : Type) where
  /-- `addTask`, as far as its critical section. -/
  | addTask (task : τ)
  /-- `notify_one` at the end of an `addTask`, and whom it reaches. -/
  | notifyOne (target : Option ι)
  /-- A worker locks `m` and makes a pass of its loop. -/
  | turn (i : ι)
  /-- A worker's task returns. -/
  | finish (i : ι)
  /-- A worker wakes up without a notification. -/
  | wake (i : ι)
  /-- `~ThreadPool`, as far as its critical section. -/
  | close
  /-- `notify_all` at the end of the destructor. -/
  | notifyAll

def Legal (s : State ι τ) : Op ι τ → Prop
  | .addTask _ => True
  | .notifyOne target => 0 < s.pending ∧ cond.Picks s.place target
  | .turn i => s.place i = .ready ∨ s.place i = .notified
  | .finish i => ∃ job, s.place i = .running job
  | .wake i => s.place i = .parked
  | .close => s.pool.isClosed = false
  | .notifyAll => s.pool.isClosed = true ∧ s.notifiedAll = false

variable [DecidableEq ι]

def State.goto (s : State ι τ) (i : ι) (worker : Worker τ) : State ι τ :=
  { s with place := Function.update s.place i worker }

def step (s : State ι τ) : Op ι τ → State ι τ
  | .addTask task =>
    let job := ⟨s.added.length, task⟩
    { s with
      pool := { s.pool with taskQue := s.pool.taskQue ++ [job] }
      pending := s.pending + 1
      added := s.added ++ [job] }
  | .notifyOne target =>
    { s with place := cond.notifyOne s.place target, pending := s.pending - 1 }
  | .turn i =>
    match s.pool.turn with
    | (pool, .running job) =>
      { s.goto i (.running job) with pool := pool, taken := s.taken ++ [job] }
    | (pool, .left) => { s.goto i .left with pool := pool, drained := s.added.length }
    | (pool, worker) => { s.goto i worker with pool := pool }
  | .finish i =>
    match s.place i with
    | .running job => { s.goto i .ready with finished := s.finished ++ [job] }
    | _ => s
  | .wake i => s.goto i .ready
  | .close => { s with pool := { s.pool with isClosed := true } }
  | .notifyAll => { s with place := cond.notifyAll s.place, notifiedAll := true }

/-- The constructor asserts that there is a worker. -/
def machine (ι τ : Type) [DecidableEq ι] [Fintype ι] : Machine Fault (State ι τ) (Op ι τ) where
  init s := 0 < Fintype.card ι ∧ s = .new
  legal := Legal
  exec s o := .ok (step s o)

/-! ## What a worker's turn and the end of a task do -/

variable {s : State ι τ} {i : ι} {job : Job τ} {rest : List (Job τ)}

/-- With a task in the queue, a worker takes it. -/
theorem step_turn_cons (h : s.pool.taskQue = job :: rest) : step s (.turn i) =
    { s.goto i (.running job) with
      pool := { s.pool with taskQue := rest }, taken := s.taken ++ [job] } := by
  rw [step, Pool.turn, h]

/-- Without one, it leaves if the pool is closed. -/
theorem step_turn_closed (h : s.pool.taskQue = []) (hc : s.pool.isClosed = true) :
    step s (.turn i) = { s.goto i .left with drained := s.added.length } := by
  rw [step, Pool.turn, h, if_pos hc]
  rfl

/-- Otherwise it waits. -/
theorem step_turn_open (h : s.pool.taskQue = []) (hc : s.pool.isClosed = false) :
    step s (.turn i) = s.goto i .parked := by
  rw [step, Pool.turn, h, if_neg (by rw [hc]; exact Bool.false_ne_true)]
  rfl

theorem step_finish (h : s.place i = .running job) : step s (.finish i) =
    { s.goto i .ready with finished := s.finished ++ [job] } := by
  rw [step, h]

/-- What does not tell a parked worker from a notified one does not see a notification. -/
theorem place_notify {β : Type} {f : Worker τ → β} (hf : f .notified = f .parked) {o : Op ι τ}
    (ho : (∃ target, o = .notifyOne target) ∨ o = .notifyAll) (hl : Legal s o) (j : ι) :
    f ((step s o).place j) = f (s.place j) := by
  have hwake : ∀ worker : Worker τ, cond.wait worker = .parked →
      f (cond.wake worker) = f worker := by
    intro worker hworker
    rw [wait_parked_iff.mp hworker]
    exact hf
  obtain ⟨target, rfl⟩ | rfl := ho
  · exact CondVar.notifyOne_congr hwake hl.2 j
  · exact CondVar.notifyAll_congr hwake j

/-- The destructor notifies once and for all. -/
theorem step_notifiedAll {o : Op ι τ} (h : s.notifiedAll = true) :
    (step s o).notifiedAll = true := by
  cases o with
  | turn i =>
    rw [step]
    split <;> exact h
  | finish i =>
    rw [step]
    split <;> exact h
  | notifyAll => rfl
  | _ => exact h

end ThreadPool

end WebServer
