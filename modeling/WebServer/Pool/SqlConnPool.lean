import WebServer.Basic
import WebServer.Machinery.Machine
import WebServer.Machinery.Threads

/-!
# Pool/SqlConnPool — `src/src/pool/sql_conn_pool.cc`, and its connections over a run

A `MYSQL*` is an `Option C`, and a null pointer is `none`.  `getConn` tests the queue without the
lock, waits for the semaphore, and only then locks `_m`; `freeConn` posts before it lets go of `_m`.
Each of these is a step of its own.  A thread holds the connections it was given until it frees
them, as a `SqlConnRAII` does.
-/

namespace WebServer

namespace SqlConnPool

open Threads

/-- Where a thread stands. -/
inductive Place where
  /-- Outside the pool. -/
  | idle
  /-- In `getConn`: it has found the queue not empty. -/
  | tested
  /-- In `getConn`: past the semaphore. -/
  | waited
  /-- In `freeConn`: it has pushed, and holds `_m`. -/
  | posting
  deriving DecidableEq, Repr

structure State (ι C : Type) where
  connQue : List (Option C)
  /-- The value of `_s`. -/
  sem : ℕ
  /-- The thread that holds `_m` from one step to the next. -/
  m : Option ι
  place : ι → Place
  held : List (ι × Option C)

variable {ι C : Type}

/-- The connections that `init` makes. -/
def conns (maxConn : ℕ) (connect : ℕ → Option C) : List (Option C) :=
  (List.range maxConn).map connect

/-- `SqlConnPool::SqlConnPool` and `init`. -/
def State.init (maxConn : ℕ) (connect : ℕ → Option C) : State ι C :=
  ⟨conns maxConn connect, maxConn, none, fun _ => .idle, []⟩

/-- The connections are distinct, and none of them failed. -/
def Distinct (maxConn : ℕ) (connect : ℕ → Option C) : Prop :=
  (∀ k < maxConn, connect k ≠ none) ∧
    ∀ k < maxConn, ∀ l < maxConn, connect k = connect l → k = l

theorem Distinct.none_not_mem {maxConn : ℕ} {connect : ℕ → Option C}
    (h : Distinct maxConn connect) : none ∉ conns maxConn connect := by
  intro hmem
  obtain ⟨k, hk, hnone⟩ := List.mem_map.mp hmem
  exact h.1 k (List.mem_range.mp hk) hnone

theorem Distinct.nodup {maxConn : ℕ} {connect : ℕ → Option C} (h : Distinct maxConn connect) :
    (conns maxConn connect).Nodup := by
  refine List.Nodup.map_on (fun k hk l hl heq => ?_) List.nodup_range
  exact h.2 k (List.mem_range.mp hk) l (List.mem_range.mp hl) heq

inductive Op (ι C : Type) where
  /-- `getConn`, its test of the queue. -/
  | test (i : ι)
  /-- `getConn`, the semaphore. -/
  | wait (i : ι)
  /-- `getConn`, its critical section. -/
  | take (i : ι)
  /-- `freeConn`, as far as the push. -/
  | freeConn (i : ι) (conn : Option C)
  /-- `freeConn`, the semaphore and the end of its critical section. -/
  | post (i : ι)

/-- A thread frees what it holds; `sem_wait` waits for a positive value, and a critical section for
its mutex. -/
def Legal (s : State ι C) : Op ι C → Prop
  | .test i => s.place i = .idle
  | .wait i => s.place i = .tested ∧ 0 < s.sem
  | .take i => s.place i = .waited ∧ s.m = none
  | .freeConn i conn => s.place i = .idle ∧ (i, conn) ∈ s.held ∧ s.m = none
  | .post i => s.place i = .posting

variable [DecidableEq ι] [DecidableEq C]

def State.goto (s : State ι C) (i : ι) (place : Place) : State ι C :=
  { s with place := Function.update s.place i place }

/-- With an empty queue `getConn` answers a null pointer, which nobody holds. -/
def exec (s : State ι C) : Op ι C → Exec (State ι C)
  | .test i => if s.connQue = [] then .ok s else .ok (s.goto i .tested)
  | .wait i => .ok { s.goto i .waited with sem := s.sem - 1 }
  | .take i =>
    match s.connQue with
    | [] => .error .outOfBounds
    | conn :: rest => .ok { s.goto i .idle with connQue := rest, held := (i, conn) :: s.held }
  | .freeConn i conn => do
    assert (conn ≠ none) "conn != nullptr"
    return { s.goto i .posting with
      connQue := s.connQue ++ [conn], held := s.held.erase (i, conn), m := some i }
  | .post i => .ok { s.goto i .idle with sem := s.sem + 1, m := none }

/-- `instance` asserts that the pool is not small. -/
def machine (ι : Type) {C : Type} [DecidableEq ι] [DecidableEq C] (maxConn : ℕ)
    (connect : ℕ → Option C) : Machine Fault (State ι C) (Op ι C) where
  init s := 10 < maxConn ∧ Distinct maxConn connect ∧ s = .init maxConn connect
  legal := Legal
  exec := exec

/-! ## The invariant -/

section Invariant

omit [DecidableEq ι] [DecidableEq C]

variable [Fintype ι]

/-- How many threads stand at a place. -/
def State.at (s : State ι C) (place : Place) : ℕ := count s.place (· == place)

/-- **The invariant**: each connection is in the queue or held, and the queue is as long as the
semaphore and the threads on their way say. -/
structure Balanced (conns : List (Option C)) (s : State ι C) : Prop where
  perm : (s.connQue ++ s.held.map Prod.snd).Perm conns
  balance : s.sem + s.at .waited + s.at .posting = s.connQue.length

variable {s : State ι C} {i : ι} {conns : List (Option C)}

/-- **A thread past the semaphore finds a connection.** -/
theorem Balanced.connQue_ne_nil (h : Balanced conns s) (hi : s.place i = .waited) :
    s.connQue ≠ [] := by
  have hpos : 0 < s.at .waited := count_pos_iff.mpr ⟨i, by rw [hi]; rfl⟩
  have hbalance := h.balance
  intro hnil
  rw [hnil, List.length_nil] at hbalance
  omega

theorem Balanced.held_ne_none (h : Balanced conns s) (hconns : none ∉ conns) {conn : Option C}
    (hheld : (i, conn) ∈ s.held) : conn ≠ none := by
  rintro rfl
  refine hconns (h.perm.mem_iff.mp (List.mem_append_right _ ?_))
  exact List.mem_map.mpr ⟨_, hheld, rfl⟩

variable [DecidableEq ι]

theorem at_goto {place : Place} (hi : s.place i = place) (place' p : Place) :
    (s.goto i place').at p + (place == p).toNat = s.at p + (place' == p).toNat :=
  hi ▸ count_update s.place i place' (· == p)

variable [DecidableEq C]

/-- **Every step succeeds and keeps the invariant.** -/
theorem Balanced.step (h : Balanced conns s) (hconns : none ∉ conns) {o : Op ι C}
    (hl : Legal s o) : ∃ s', exec s o = .ok s' ∧ Balanced conns s' := by
  have hbalance := h.balance
  cases o with
  | test i =>
    have hi : s.place i = .idle := hl
    rw [exec]
    split
    · exact ⟨s, rfl, h⟩
    · refine ⟨_, rfl, h.perm, ?_⟩
      have hw : (s.goto i .tested).at .waited = s.at .waited := at_goto hi .tested .waited
      have hp : (s.goto i .tested).at .posting = s.at .posting := at_goto hi .tested .posting
      rw [hw, hp]
      exact hbalance
  | wait i =>
    obtain ⟨hi, hsem⟩ := hl
    have hw : (s.goto i .waited).at .waited = s.at .waited + 1 := at_goto hi .waited .waited
    have hp : (s.goto i .waited).at .posting = s.at .posting := at_goto hi .waited .posting
    refine ⟨_, rfl, h.perm, ?_⟩
    show s.sem - 1 + (s.goto i .waited).at .waited + (s.goto i .waited).at .posting
      = s.connQue.length
    omega
  | take i =>
    have hi : s.place i = .waited := hl.1
    have hw : (s.goto i .idle).at .waited + 1 = s.at .waited := at_goto hi .idle .waited
    have hp : (s.goto i .idle).at .posting = s.at .posting := at_goto hi .idle .posting
    have hperm := h.perm
    obtain ⟨conn, rest, hq⟩ := List.exists_cons_of_ne_nil (h.connQue_ne_nil hi)
    rw [hq] at hperm hbalance
    rw [exec, hq]
    refine ⟨_, rfl, ?_, ?_⟩
    · exact List.perm_middle.trans hperm
    · show s.sem + (s.goto i .idle).at .waited + (s.goto i .idle).at .posting = rest.length
      rw [List.length_cons] at hbalance
      omega
  | freeConn i conn =>
    obtain ⟨hi, hheld, -⟩ := hl
    have hw : (s.goto i .posting).at .waited = s.at .waited := at_goto hi .posting .waited
    have hp : (s.goto i .posting).at .posting = s.at .posting + 1 := at_goto hi .posting .posting
    rw [exec, assert_true (h.held_ne_none hconns hheld), ok_bind]
    refine ⟨_, rfl, ?_, ?_⟩
    · show (s.connQue ++ [conn] ++ (s.held.erase (i, conn)).map Prod.snd).Perm conns
      have herase := (List.perm_cons_erase hheld).map Prod.snd
      rw [List.append_assoc]
      exact (herase.symm.append_left s.connQue).trans h.perm
    · show s.sem + (s.goto i .posting).at .waited + (s.goto i .posting).at .posting
        = (s.connQue ++ [conn]).length
      rw [List.length_append, List.length_singleton]
      omega
  | post i =>
    have hi : s.place i = .posting := hl
    have hw : (s.goto i .idle).at .waited = s.at .waited := at_goto hi .idle .waited
    have hp : (s.goto i .idle).at .posting + 1 = s.at .posting := at_goto hi .idle .posting
    refine ⟨_, rfl, h.perm, ?_⟩
    show s.sem + 1 + (s.goto i .idle).at .waited + (s.goto i .idle).at .posting = s.connQue.length
    omega

end Invariant

/-! ## The runs -/

/-- The invariant of a run. -/
def Kept (maxConn : ℕ) (connect : ℕ → Option C) [Fintype ι] (s : State ι C) : Prop :=
  Distinct maxConn connect ∧ Balanced (conns maxConn connect) s

variable [Fintype ι]

theorem machine_safe (maxConn : ℕ) (connect : ℕ → Option C) :
    (machine ι maxConn connect).Safe (Kept maxConn connect) where
  init s hs := by
    obtain ⟨-, hdistinct, rfl⟩ := hs
    refine ⟨hdistinct, ?_, ?_⟩
    · simp [State.init]
    · have hat : ∀ place ≠ .idle, (State.init maxConn connect : State ι C).at place = 0 := by
        intro place hne
        refine count_eq_zero_iff.mpr fun i => ?_
        exact beq_false_of_ne hne.symm
      rw [hat _ (by decide), hat _ (by decide)]
      simp [State.init, conns]
  step s o hs hl := by
    obtain ⟨s', he, hs'⟩ := hs.2.step hs.1.none_not_mem hl
    exact ⟨s', he, hs.1, hs'⟩

/-- **The pool loses no connection and gives none out twice.**  No step of a run fails: a thread
past the semaphore finds a connection in the queue.  Each connection is in the queue or held by one
thread, and the semaphore and the threads between it and the queue add up to the length of the
queue. -/
theorem conns_accounted {maxConn : ℕ} {connect : ℕ → Option C} {s : State ι C}
    (h : (machine ι maxConn connect).Reach s) :
    (∀ o, Legal s o → ∃ s', exec s o = .ok s') ∧
    (∀ i, s.place i = .waited → s.connQue ≠ []) ∧
    (∀ i j conn, (i, conn) ∈ s.held → (j, conn) ∈ s.held → i = j) ∧
    (∀ i conn, (i, conn) ∈ s.held → conn ∉ s.connQue) ∧
    (s.connQue ++ s.held.map Prod.snd).Nodup ∧
    (∀ conn, conn ∈ conns maxConn connect ↔ conn ∈ s.connQue ∨ ∃ i, (i, conn) ∈ s.held) ∧
    s.sem + s.at .waited + s.at .posting = s.connQue.length := by
  obtain ⟨hdistinct, hbal⟩ := (machine_safe maxConn connect).reach h
  have hnodup := hbal.perm.nodup_iff.mpr hdistinct.nodup
  obtain ⟨-, hheld, hapart⟩ := List.nodup_append.mp hnodup
  refine ⟨fun o hl => ?_, fun i hi => hbal.connQue_ne_nil hi, fun i j conn hi hj => ?_,
    fun i conn hi hq => ?_, hnodup, fun conn => ?_, hbal.balance⟩
  · obtain ⟨s', he, -⟩ := hbal.step hdistinct.none_not_mem hl
    exact ⟨s', he⟩
  · exact (Prod.mk.inj (List.inj_on_of_nodup_map hheld hi hj rfl)).1
  · exact hapart conn hq conn (List.mem_map.mpr ⟨_, hi, rfl⟩) rfl
  · rw [← hbal.perm.mem_iff, List.mem_append, List.mem_map]
    simp

/-- One of two threads has taken a connection and the other is past the semaphore. -/
theorem conns_accounted_two : ∃ s : State (Fin 2) ℕ, s.held = [(0, some 0)] ∧
    s.place 1 = .waited ∧ s.connQue ≠ [] := by
  have hinit : (machine (Fin 2) 12 (some : ℕ → Option ℕ)).Reach _ :=
    .init ⟨by decide, ⟨by simp, fun k _ l _ hkl => Option.some.inj hkl⟩, rfl⟩
  have h₁ : (machine (Fin 2) 12 (some : ℕ → Option ℕ)).Reach _ :=
    .step (o := .test 0) hinit rfl rfl
  have h₂ : (machine (Fin 2) 12 (some : ℕ → Option ℕ)).Reach _ :=
    .step (o := .wait 0) h₁ ⟨rfl, by decide⟩ rfl
  have h₃ : (machine (Fin 2) 12 (some : ℕ → Option ℕ)).Reach _ :=
    .step (o := .take 0) h₂ ⟨rfl, rfl⟩ rfl
  have h₄ : (machine (Fin 2) 12 (some : ℕ → Option ℕ)).Reach _ :=
    .step (o := .test 1) h₃ rfl rfl
  have h₅ : (machine (Fin 2) 12 (some : ℕ → Option ℕ)).Reach _ :=
    .step (o := .wait 1) h₄ ⟨rfl, by decide⟩ rfl
  exact ⟨_, rfl, rfl, (conns_accounted h₅).2.1 1 rfl⟩

end SqlConnPool

end WebServer
