import WebServer.Machinery.Mutex
import WebServer.Machinery.Settling
import WebServer.Pool.SqlConnPool

/-!
# Pool/Supply — `src/src/RAIIs/sql_conn_RAII.hpp`, and whether a thread goes without

A thread has a `SqlConnRAII` for the length of one statement: it asks for a connection when it holds
none, asserts that it was given one, and gives it back.  So the pool never runs dry if and only if
it has a connection for each thread (`supplied_iff`), given that every `connect` of `init` has
succeeded: a failed one puts a null pointer into the queue (`Distinct` rules it out).  A thread that
is past the test may have to wait for another to give back; then it is served, and in the end every
connection is back in the queue (`conns_returned`).
-/

namespace WebServer

namespace SqlConnRAII

open SqlConnPool Threads

variable {ι C : Type}

/-- The threads that have a `SqlConnRAII`. -/
def holders (s : State ι C) : List ι := s.held.map Prod.fst

/-- A thread asks for a connection when it has none. -/
def Legal (s : State ι C) : Op ι C → Prop
  | .test i => SqlConnPool.Legal s (.test i) ∧ i ∉ holders s
  | .wait i => SqlConnPool.Legal s (.wait i)
  | .take i => SqlConnPool.Legal s (.take i)
  | .freeConn i conn => SqlConnPool.Legal s (.freeConn i conn)
  | .post i => SqlConnPool.Legal s (.post i)

theorem Legal.pool {s : State ι C} {o : Op ι C} (hl : Legal s o) : SqlConnPool.Legal s o := by
  cases o with
  | test => exact hl.1
  | wait | take | freeConn | post => exact hl

/-- A thread that holds a connection holds one, and is not in the pool. -/
structure Apart (s : State ι C) : Prop where
  nodup : (holders s).Nodup
  idle : ∀ i ∈ holders s, s.place i = .idle
  mutex : Mutex.Owns (· == .posting) s.place s.m

variable {s s' : State ι C} {o : Op ι C} {i j : ι} {place : Place}

/-! ## How many connections are out -/

section Count

variable [Fintype ι] {maxConn : ℕ} {connect : ℕ → Option C}

/-- Threads outside the pool are counted there. -/
theorem length_le_idle {l : List ι} (hnodup : l.Nodup) (hidle : ∀ i ∈ l, s.place i = .idle) :
    l.length ≤ s.at .idle := by
  classical
  rw [← List.toFinset_card_of_nodup hnodup, State.at, count]
  refine Finset.card_le_card fun i hi => ?_
  rw [Finset.mem_filter, hidle i (List.mem_toFinset.mp hi)]
  exact ⟨Finset.mem_univ i, rfl⟩

/-- A thread is in one place. -/
theorem sum_at (s : State ι C) :
    s.at .idle + s.at .tested + s.at .waited + s.at .posting = Fintype.card ι := by
  simp only [State.at, count, Finset.card_filter, ← Finset.sum_add_distrib]
  rw [← Finset.card_univ, Finset.card_eq_sum_ones]
  refine Finset.sum_congr rfl fun i _ => ?_
  cases s.place i <;> rfl

/-- The connections that are out, and the threads on their way, are as many as the threads at
most. -/
theorem Apart.length_held_le (h : Apart s) :
    s.held.length + s.at .tested + s.at .waited + s.at .posting ≤ Fintype.card ι := by
  have hidle := length_le_idle h.nodup h.idle
  rw [holders, List.length_map] at hidle
  have hsum := sum_at s
  omega

/-- They are fewer while a thread has none and is on no way. -/
theorem Apart.length_held_lt (h : Apart s) (hi : s.place i = .idle) (hnew : i ∉ holders s) :
    s.held.length + s.at .tested + s.at .waited + s.at .posting < Fintype.card ι := by
  have hidle := length_le_idle (List.nodup_cons.mpr ⟨hnew, h.nodup⟩)
    (List.forall_mem_cons.mpr ⟨hi, h.idle⟩)
  rw [List.length_cons, holders, List.length_map] at hidle
  have hsum := sum_at s
  omega

theorem length_connQue (h : Balanced (conns maxConn connect) s) :
    s.connQue.length + s.held.length = maxConn := by
  have hlen := h.perm.length_eq
  simpa [conns] using hlen

/-- **With a connection for each thread, the queue is not empty when one asks.** -/
theorem Apart.connQue_ne_nil (h : Apart s) (hb : Balanced (conns maxConn connect) s)
    (hcard : Fintype.card ι ≤ maxConn) (hi : s.place i = .idle) (hnew : i ∉ holders s) :
    s.connQue ≠ [] := by
  have hlt := h.length_held_lt hi hnew
  have hlen := length_connQue hb
  refine List.ne_nil_of_length_pos ?_
  omega

end Count

variable [DecidableEq ι] [DecidableEq C]

/-- The constructor asserts what `getConn` answers, which is a null pointer if the queue is empty;
the destructor gives the connection back. -/
def exec (s : State ι C) : Op ι C → Exec (State ι C)
  | .test i => do
    assert (s.connQue ≠ []) "_mysql"
    SqlConnPool.exec s (.test i)
  | .wait i => SqlConnPool.exec s (.wait i)
  | .take i => SqlConnPool.exec s (.take i)
  | .freeConn i conn => SqlConnPool.exec s (.freeConn i conn)
  | .post i => SqlConnPool.exec s (.post i)

def machine (ι : Type) {C : Type} [DecidableEq ι] [DecidableEq C] (maxConn : ℕ)
    (connect : ℕ → Option C) : Machine Fault (State ι C) (Op ι C) where
  init s := 10 < maxConn ∧ SqlConnPool.Distinct maxConn connect ∧ s = .init maxConn connect
  legal := Legal
  exec := exec

/-- The queue is not found empty. -/
theorem exec_eq {s : State ι C} {o : Op ι C} (h : ∀ i, o = .test i → s.connQue ≠ []) :
    exec s o = SqlConnPool.exec s o := by
  cases o with
  | test i => rw [exec, assert_true (h i rfl), ok_bind]
  | wait | take | freeConn | post => rfl

theorem exec_ok {s s' : State ι C} {o : Op ι C} (he : exec s o = .ok s') :
    SqlConnPool.exec s o = .ok s' ∧ ∀ i, o = .test i → s.connQue ≠ [] := by
  cases o with
  | test i =>
    obtain ⟨_, hne, he⟩ := bind_eq_ok.mp he
    exact ⟨he, fun _ _ => assert_eq_ok hne⟩
  | wait | take | freeConn | post => exact ⟨he, nofun⟩

/-! ## The steps -/

omit [DecidableEq C] in
theorem goto_idle (hj : s.place j = .idle) (hne : j ≠ i) : (s.goto i place).place j = .idle :=
  (Function.update_of_ne hne ..).trans hj

theorem Apart.step (h : Apart s) (hl : Legal s o) (he : exec s o = .ok s') : Apart s' := by
  obtain ⟨he, hne⟩ := exec_ok he
  have hout : ∀ {i}, s.place i ≠ .idle → ∀ j ∈ holders s, j ≠ i := by
    rintro i hi j hj rfl
    exact hi (h.idle j hj)
  cases o with
  | test i =>
    obtain ⟨hi, hnew⟩ := hl
    rw [SqlConnPool.exec, if_neg (hne i rfl)] at he
    cases he
    refine ⟨h.nodup, fun j hj => goto_idle (h.idle j hj) ?_, h.mutex.stay ?_⟩
    · rintro rfl
      exact hnew hj
    · rw [show s.place i = .idle from hi]
      rfl
  | wait i =>
    cases he
    have hi : s.place i = .tested := hl.1
    refine ⟨h.nodup, fun j hj => goto_idle (h.idle j hj) (hout (by rw [hi]; decide) j hj),
      h.mutex.stay ?_⟩
    rw [hi]
    rfl
  | take i =>
    have hi : s.place i = .waited := hl.1
    have hidle : s.place i ≠ .idle := by rw [hi]; decide
    rw [SqlConnPool.exec] at he
    split at he
    · cases he
    cases he
    refine ⟨List.nodup_cons.mpr ⟨fun hmem => hout hidle i hmem rfl, h.nodup⟩, ?_, h.mutex.stay ?_⟩
    · refine List.forall_mem_cons.mpr ⟨Function.update_self .., fun j hj => ?_⟩
      exact goto_idle (h.idle j hj) (hout hidle j hj)
    · rw [hi]
      rfl
  | freeConn i conn =>
    obtain ⟨hi, hheld, hm⟩ := hl
    obtain ⟨-, -, he⟩ := bind_eq_ok.mp he
    cases he
    have hperm : (holders s).Perm (i :: (s.held.erase (i, conn)).map Prod.fst) :=
      (List.perm_cons_erase hheld).map Prod.fst
    obtain ⟨hi', hnodup⟩ := List.nodup_cons.mp (hperm.nodup_iff.mp h.nodup)
    refine ⟨hnodup, fun j hj => goto_idle ?_ ?_, ?_⟩
    · exact h.idle j (hperm.mem_iff.mpr (List.mem_cons_of_mem i hj))
    · rintro rfl
      exact hi' hj
    · have hfree : Mutex.Owns (· == .posting) s.place none := hm ▸ h.mutex
      exact hfree.take rfl
  | post i =>
    cases he
    have hi : s.place i = .posting := hl
    refine ⟨h.nodup, fun j hj => goto_idle (h.idle j hj) (hout (by rw [hi]; decide) j hj), ?_⟩
    exact h.mutex.leave (by rw [hi]; rfl) rfl

/-! ## The runs -/

variable [Fintype ι] {maxConn : ℕ} {connect : ℕ → Option C}

/-- The invariant of a run. -/
structure Lent (maxConn : ℕ) (connect : ℕ → Option C) (s : State ι C) : Prop where
  distinct : SqlConnPool.Distinct maxConn connect
  balanced : Balanced (conns maxConn connect) s
  apart : Apart s

theorem Reach.lent (hs : (machine ι maxConn connect).Reach s) : Lent maxConn connect s := by
  refine hs.invariant (fun s hs => ?_) fun s o s' h hl he => ?_
  · have hkept := (machine_safe maxConn connect).init s hs
    obtain ⟨-, -, rfl⟩ := hs
    refine ⟨hkept.1, hkept.2, List.nodup_nil, nofun, fun i => ?_⟩
    exact ⟨nofun, nofun⟩
  · obtain ⟨s'', he', hbalanced⟩ := h.balanced.step h.distinct.none_not_mem hl.pool
    obtain rfl := Except.ok.inj ((exec_ok he).1.symm.trans he')
    exact ⟨h.distinct, hbalanced, h.apart.step hl he⟩

/-- **A thread that asks is given one**, if there is one for each. -/
theorem exec_supplied (hcard : Fintype.card ι ≤ maxConn) (hs : (machine ι maxConn connect).Reach s)
    (hl : Legal s o) : ∃ s', exec s o = .ok s' := by
  have h := Reach.lent hs
  obtain ⟨s', he, -⟩ := h.balanced.step h.distinct.none_not_mem hl.pool
  refine ⟨s', (exec_eq fun i ho => ?_).trans he⟩
  subst ho
  exact h.apart.connQue_ne_nil h.balanced hcard hl.1 hl.2

/-- The steps that a thread may still take. -/
def left : Place → ℕ
  | .idle => 0
  | .tested => 4
  | .waited => 3
  | .posting => 1

/-- What asking for a connection may add. -/
def cost : Op ι C → ℕ
  | .test _ => 5
  | _ => 0

/-- The steps that may still come. -/
def effort (s : State ι C) : ℕ := ∑ i, left (s.place i) + 2 * s.held.length

omit [DecidableEq C] in
theorem sum_goto (s : State ι C) (i : ι) (place : Place) :
    ∑ j, left ((s.goto i place).place j) + left (s.place i)
      = ∑ j, left (s.place j) + left place :=
  sum_update s.place i place left

/-- **Every step is paid for.** -/
theorem effort_step (hl : Legal s o) (he : exec s o = .ok s') : effort s' < effort s + cost o := by
  obtain ⟨he, hne⟩ := exec_ok he
  cases o with
  | test i =>
    have hi : s.place i = .idle := hl.1
    rw [SqlConnPool.exec, if_neg (hne i rfl)] at he
    cases he
    have hsum := sum_goto s i .tested
    rw [hi] at hsum
    show ∑ j, left ((s.goto i .tested).place j) + 2 * s.held.length < effort s + 5
    simp only [effort, left] at hsum ⊢
    omega
  | wait i =>
    have hi : s.place i = .tested := hl.1
    cases he
    have hsum := sum_goto s i .waited
    rw [hi] at hsum
    show ∑ j, left ((s.goto i .waited).place j) + 2 * s.held.length < effort s + 0
    simp only [effort, left] at hsum ⊢
    omega
  | take i =>
    have hi : s.place i = .waited := hl.1
    rw [SqlConnPool.exec] at he
    split at he
    · cases he
    cases he
    have hsum := sum_goto s i .idle
    rw [hi] at hsum
    show ∑ j, left ((s.goto i .idle).place j) + 2 * (s.held.length + 1) < effort s + 0
    simp only [effort, left] at hsum ⊢
    omega
  | freeConn i conn =>
    obtain ⟨hi, hheld, -⟩ := hl
    obtain ⟨_, -, he⟩ := bind_eq_ok.mp he
    cases he
    have hsum := sum_goto s i .posting
    rw [hi] at hsum
    have hlen := List.length_erase_of_mem hheld
    have hpos := List.length_pos_of_mem hheld
    show ∑ j, left ((s.goto i .posting).place j) + 2 * (s.held.erase (i, conn)).length
      < effort s + 0
    simp only [effort, left] at hsum ⊢
    omega
  | post i =>
    have hi : s.place i = .posting := hl
    cases he
    have hsum := sum_goto s i .idle
    rw [hi] at hsum
    show ∑ j, left ((s.goto i .idle).place j) + 2 * s.held.length < effort s + 0
    simp only [effort, left] at hsum ⊢
    omega

theorem settles (hcard : Fintype.card ι ≤ maxConn) : (machine ι maxConn connect).Settles
    (machine ι maxConn connect).Reach effort cost where
  step s o hs hl := by
    obtain ⟨s', he⟩ := exec_supplied hcard hs hl
    exact ⟨s', he, hs.step hl he, effort_step hl he⟩

end SqlConnRAII

end WebServer
