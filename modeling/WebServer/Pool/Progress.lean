import WebServer.Machinery.Settling
import WebServer.Pool.Tasks
import WebServer.Pool.Wakeups

/-!
# Pool/Progress — the thread pool gets its work done

Every step of a worker and every notification lowers `State.effort`; a call of `addTask`, a spurious
wake-up and the destructor's critical section raise it by less than their `cost`.  So a pool that is
left alone rests before long, and no interleaving can keep a task from being run: what `Served`
forbids is a rest with a task in the queue.
-/

namespace WebServer

namespace ThreadPool

variable {ι τ : Type}

/-- The steps that may still come of where a worker stands. -/
def Worker.effort : Worker τ → ℕ
  | .ready => 1
  | .running _ => 2
  | .parked => 0
  | .notified => 1
  | .left => 0

/-- What a step from outside may add. -/
def cost : Op ι τ → ℕ
  | .addTask _ => 5
  | .wake _ => 2
  | .close => 1
  | _ => 0

variable [Fintype ι]

/-- The steps that may still come. -/
def State.effort (s : State ι τ) : ℕ :=
  ∑ i, (s.place i).effort + 2 * s.pool.taskQue.length + 2 * s.pending
    + bif s.notifiedAll then 0 else Fintype.card ι + 1

/-- The work is done: the workers wait, or have left a closed pool, and every task has been run. -/
structure Idle (s : State ι τ) : Prop where
  place : ∀ i, s.place i = if s.pool.isClosed then .left else .parked
  queue : s.pool.taskQue = []
  finished : ∀ k < s.added.length, times k s.finished = 1

variable [DecidableEq ι] {s s' : State ι τ} {o : Op ι τ} {i : ι} {worker : Worker τ}

/-! ## The potential -/

theorem effort_goto (s : State ι τ) (i : ι) (worker : Worker τ) :
    (s.goto i worker).effort + (s.place i).effort = s.effort + worker.effort := by
  have hsum := Threads.sum_update s.place i worker Worker.effort
  simp only [State.effort, State.goto]
  omega

theorem effort_turn (hl : s.place i = .ready ∨ s.place i = .notified) :
    (step s (.turn i)).effort < s.effort := by
  have hone : (s.place i).effort = 1 := by
    obtain hi | hi := hl <;> rw [hi] <;> rfl
  rcases hq : s.pool.taskQue with _ | ⟨job, rest⟩
  · cases hc : s.pool.isClosed
    · rw [step_turn_open hq hc]
      have hgoto : _ = s.effort + 0 := effort_goto s i .parked
      omega
    · rw [step_turn_closed hq hc]
      have hgoto : _ = s.effort + 0 := effort_goto s i .left
      show (s.goto i .left).effort < s.effort
      omega
  · rw [step_turn_cons hq]
    have hsum : _ = _ + 2 := Threads.sum_update s.place i (.running job) Worker.effort
    simp only [State.effort, State.goto, hq, List.length_cons]
    omega

/-- **Every step is paid for.** -/
theorem effort_step (hl : Legal s o) : (step s o).effort < s.effort + cost o := by
  cases o with
  | addTask task =>
    simp only [State.effort, step, cost, List.length_append, List.length_singleton]
    omega
  | notifyOne target =>
    obtain ⟨hpending, hpicks⟩ := hl
    cases target with
    | none =>
      simp only [State.effort, step, cost, CondVar.notifyOne]
      omega
    | some i =>
      have hi : (s.place i).effort = 0 := by rw [wait_parked_iff.mp hpicks]; rfl
      have hsum : _ = _ + 1 := Threads.sum_update s.place i .notified Worker.effort
      simp only [State.effort, step, cost, CondVar.notifyOne, cond]
      omega
  | turn i => exact effort_turn hl
  | finish i =>
    obtain ⟨job, hi⟩ := hl
    rw [step_finish hi]
    have hgoto : (s.goto i .ready).effort + 2 = s.effort + 1 := by
      have := effort_goto s i .ready
      rwa [hi] at this
    show (s.goto i .ready).effort < s.effort + 0
    omega
  | wake i =>
    have hi : s.place i = .parked := hl
    have hgoto : (s.goto i .ready).effort + 0 = s.effort + 1 := by
      have := effort_goto s i .ready
      rwa [hi] at this
    show (s.goto i .ready).effort < s.effort + 2
    omega
  | close => exact Nat.lt_succ_self _
  | notifyAll =>
    have hwake : ∀ i, (cond.notifyAll s.place i).effort ≤ (s.place i).effort + 1 := by
      intro i
      rw [CondVar.notifyAll]
      split
      · exact Nat.le_add_left _ _
      · exact Nat.le_succ _
    have hsum := Finset.sum_le_sum fun i (_ : i ∈ Finset.univ) => hwake i
    rw [Finset.sum_add_distrib, Finset.sum_const, Finset.card_univ, smul_eq_mul, mul_one] at hsum
    simp only [State.effort, step, cost, hl.2, cond_true, cond_false]
    omega

/-! ## Rest -/

theorem settles : ((machine ι τ).restrict InTime).Settles
    ((machine ι τ).restrict InTime).Reach State.effort cost where
  step s o hs hl := ⟨step s o, rfl, hs.step hl rfl, effort_step hl.1⟩

/-- **At rest the work is done.** -/
theorem idle_of_rests (hs : ((machine ι τ).restrict InTime).Reach s)
    (hrest : ((machine ι τ).restrict InTime).Rests cost s) : Idle s := by
  have hserved : Served s := served_safe.reach hs.of_restrict
  have hacc : Accounts s := accounts_safe.reach hs.of_restrict
  obtain ⟨i₀⟩ := exists_worker hs.of_restrict
  have hno : ∀ o, cost o = 0 → InTime s o → ¬ Legal s o := fun o hfree htime hl =>
    hrest o ⟨hl, htime⟩ hfree
  -- A worker that is not parked or gone has a step to make.
  have hplace : ∀ i, s.place i = .parked ∨ s.place i = .left := by
    intro i
    cases hi : s.place i with
    | ready => exact absurd (.inl hi) (hno (.turn i) rfl trivial)
    | running job => exact absurd ⟨job, hi⟩ (hno (.finish i) rfl trivial)
    | notified => exact absurd (.inr hi) (hno (.turn i) rfl trivial)
    | parked => exact .inl rfl
    | left => exact .inr rfl
  have hend : (∀ i, s.place i = if s.pool.isClosed then .left else .parked) ∧
      s.pool.taskQue = [] := by
    cases hc : s.pool.isClosed with
    | true =>
      have hall : s.notifiedAll = true := by
        by_contra hne
        exact hno .notifyAll rfl trivial ⟨hc, by simpa using hne⟩
      have hleft : ∀ i, s.place i = .left := fun i =>
        (hplace i).resolve_left fun hi => hserved.released hall i (wait_parked_iff.mpr hi)
      have hdrained := (drained_of_inTime hs (hleft i₀)).2
      have hlen := congrArg List.length hacc.fifo
      have htaken := hacc.drained
      rw [List.length_append] at hlen
      exact ⟨hleft, List.eq_nil_of_length_eq_zero (by omega)⟩
    | false =>
      have hparked : ∀ i, s.place i = .parked := fun i =>
        (hplace i).resolve_right fun hi => by
          rw [(drained_of_inTime hs hi).1] at hc
          cases hc
      have hpos : 0 < cond.parked s.place :=
        CondVar.parked_pos_iff.mpr ⟨i₀, wait_parked_iff.mpr (hparked i₀)⟩
      have hnotified : cond.notified s.place = 0 := Threads.count_eq_zero_iff.mpr fun i => by
        rw [hparked i]
        rfl
      have hpending : s.pending = 0 := by
        by_contra hne
        exact hno (.notifyOne (some i₀)) rfl trivial
          ⟨Nat.pos_of_ne_zero hne, wait_parked_iff.mpr (hparked i₀)⟩
      have hcovers := hserved.covers hpos
      exact ⟨hparked, List.eq_nil_of_length_eq_zero (by omega)⟩
  refine ⟨hend.1, hend.2, fun k hk => ?_⟩
  have hone := hacc.exactly_one hk
  have hnone : s.running k = 0 := Threads.count_eq_zero_iff.mpr fun i => by
    obtain hi | hi := hplace i <;> rw [hi] <;> rfl
  have hqueue : times k s.pool.taskQue = 0 := by rw [hend.2]; rfl
  omega

/-- **The pool gets its work done**, however its steps are interleaved.  A run from a state of the
pool has no more steps than `effort` there, and five for each call of `addTask`, two for each
spurious wake-up and one for the destructor allow.  Where none but these can come, every task that
was ever added has been run once, the queue is empty, and the workers wait, or have left if the
destructor has run; and from every state the pool comes there by itself. -/
theorem tasks_settle (hs : ((machine ι τ).restrict InTime).Reach s) :
    (∀ ops s', ((machine ι τ).restrict InTime).Runs s ops s' →
      ops.length ≤ s.effort + (ops.map cost).sum ∧
      (((machine ι τ).restrict InTime).Rests cost s' → Idle s')) ∧
    ∃ ops s', ((machine ι τ).restrict InTime).Runs s ops s' ∧ (∀ o ∈ ops, cost o = 0) ∧
      Idle s' := by
  constructor
  · intro ops s' hruns
    exact ⟨(Nat.le_add_right _ _).trans (settles.length_le hs hruns),
      idle_of_rests (hs.runs hruns)⟩
  · obtain ⟨ops, s', hruns, hfree, hs', hrest⟩ := settles.exists_rest hs
    exact ⟨ops, s', hruns, hfree, idle_of_rests hs' hrest⟩

/-- A task is added to a pool of two workers, which is closed: the workers see it through. -/
theorem tasks_settle_closed : ∃ (s : State (Fin 2) ℕ) (ops : List (Op (Fin 2) ℕ))
    (s' : State (Fin 2) ℕ), s.pool.isClosed = true ∧ s.added.length = 1 ∧
      ((machine (Fin 2) ℕ).restrict InTime).Runs s ops s' ∧ Idle s' := by
  have h₁ : ((machine (Fin 2) ℕ).restrict InTime).Reach _ :=
    .step (o := .addTask 7) (.init ⟨by decide, rfl⟩) ⟨trivial, rfl⟩ rfl
  have h₂ : ((machine (Fin 2) ℕ).restrict InTime).Reach _ :=
    .step (o := .close) h₁ ⟨rfl, trivial⟩ rfl
  obtain ⟨-, ops, s', hruns, -, hidle⟩ := tasks_settle h₂
  exact ⟨_, ops, s', rfl, rfl, hruns, hidle⟩

end ThreadPool

end WebServer
