import WebServer.Pool.ThreadPool

/-!
# Pool/Tasks — every task is run once, in the order of the calls

The jobs that have been added are those that have been taken, then those in the queue; the jobs that
have been taken are running or finished.  A worker leaves when the pool is closed and the queue is
empty, so what was added before the last of them left has been run.
-/

namespace WebServer

namespace ThreadPool

open Threads

variable {ι τ : Type}

/-- The worker is at the job with number `k`. -/
def Worker.runs (k : ℕ) : Worker τ → Bool
  | .running job => job.no == k
  | _ => false

def Worker.hasLeft : Worker τ → Bool
  | .left => true
  | _ => false

/-- How often the job with number `k` is in a list. -/
def times (k : ℕ) (jobs : List (Job τ)) : ℕ := (jobs.map Job.no).count k

/-- How many workers are at the job with number `k`. -/
def State.running [Fintype ι] (s : State ι τ) (k : ℕ) : ℕ := count s.place (Worker.runs k)

variable {s : State ι τ} {i : ι} {k : ℕ} {job : Job τ} {jobs rest : List (Job τ)}

theorem times_append : times k (jobs ++ rest) = times k jobs + times k rest := by
  rw [times, List.map_append, List.count_append, times, times]

theorem times_singleton : times k [job] = (job.no == k).toNat := by
  rw [times, List.map_singleton, List.count_singleton]
  cases job.no == k <;> rfl

theorem hasLeft_iff {worker : Worker τ} : worker.hasLeft = true ↔ worker = .left := by
  cases worker <;> simp [Worker.hasLeft]

section Invariant

variable [Fintype ι]

/-- **The invariant.** -/
structure Accounts (s : State ι τ) : Prop where
  fifo : s.taken ++ s.pool.taskQue = s.added
  numbers : s.added.map Job.no = List.range s.added.length
  ran : ∀ k, times k s.taken = s.running k + times k s.finished
  drained : s.drained ≤ s.taken.length

namespace Accounts

/-- A job stands once in the list of those that have been added. -/
theorem times_added (h : Accounts s) (hk : k < s.added.length) : times k s.added = 1 := by
  rw [times, h.numbers, List.count_eq_one_of_mem List.nodup_range (List.mem_range.mpr hk)]

/-- **A job is in the queue, with one worker, or finished.** -/
theorem exactly_one (h : Accounts s) (hk : k < s.added.length) :
    times k s.pool.taskQue + s.running k + times k s.finished = 1 := by
  have hadded := h.times_added hk
  rw [← h.fifo, times_append, h.ran] at hadded
  omega

/-- The numbers of the jobs that have been taken are the first ones. -/
theorem times_taken (h : Accounts s) (hk : k < s.taken.length) : times k s.taken = 1 := by
  have hlen : s.added.length = s.taken.length + s.pool.taskQue.length := by
    rw [← h.fifo, List.length_append]
  have hnumbers : s.taken.map Job.no = List.range s.taken.length := by
    have htake := congrArg (List.take s.taken.length) h.numbers
    rw [← h.fifo, List.map_append, List.take_left' (List.length_map _), List.take_range] at htake
    rwa [List.length_append, Nat.min_eq_left (Nat.le_add_right _ _)] at htake
  rw [times, hnumbers, List.count_eq_one_of_mem List.nodup_range (List.mem_range.mpr hk)]

/-- **With every worker gone, what was taken is finished.** -/
theorem finished_of_left (h : Accounts s) (hleft : ∀ i, s.place i = .left)
    (hk : k < s.taken.length) : times k s.finished = 1 := by
  have hnone : s.running k = 0 := count_eq_zero_iff.mpr fun i => by rw [hleft i]; rfl
  have htaken := h.times_taken hk
  rw [h.ran, hnone, Nat.zero_add] at htaken
  exact htaken

variable [DecidableEq ι]

theorem running_goto (worker : Worker τ) : (s.goto i worker).running k
    + ((s.place i).runs k).toNat = s.running k + (worker.runs k).toNat :=
  count_update s.place i worker (Worker.runs k)

/-- A worker that is at no job goes where there is no job. -/
theorem running_goto_idle (hi : (s.place i).runs k = false) {worker : Worker τ}
    (hw : worker.runs k = false) : (s.goto i worker).running k = s.running k :=
  count_update_of_eq (hw.trans hi.symm)

theorem turn (h : Accounts s) (hl : s.place i = .ready ∨ s.place i = .notified) :
    Accounts (step s (.turn i)) := by
  have hidle : ∀ k, (s.place i).runs k = false := by
    intro k
    obtain hi | hi := hl <;> rw [hi] <;> rfl
  rcases hq : s.pool.taskQue with _ | ⟨job, rest⟩
  · have htaken : s.taken = s.added := by
      rw [← h.fifo, hq, List.append_nil]
    cases hc : s.pool.isClosed
    · rw [step_turn_open hq hc]
      refine ⟨h.fifo, h.numbers, fun k => ?_, h.drained⟩
      rw [running_goto_idle (hidle k) rfl]
      exact h.ran k
    · rw [step_turn_closed hq hc]
      refine ⟨h.fifo, h.numbers, fun k => ?_, congrArg List.length htaken.symm |>.le⟩
      exact (h.ran k).trans (congrArg (· + _) (running_goto_idle (hidle k) rfl).symm)
  · rw [step_turn_cons hq]
    refine ⟨?_, h.numbers, fun k => ?_, ?_⟩
    · show s.taken ++ [job] ++ rest = s.added
      rw [← h.fifo, hq, List.append_assoc, List.singleton_append]
    · have hcount := running_goto (s := s) (i := i) (k := k) (.running job)
      rw [hidle, Bool.toNat_false, Nat.add_zero] at hcount
      show times k (s.taken ++ [job]) = (s.goto i (.running job)).running k + times k s.finished
      rw [times_append, times_singleton, h.ran, Nat.add_right_comm, hcount]
      rfl
    · show s.drained ≤ (s.taken ++ [job]).length
      rw [List.length_append]
      exact h.drained.trans (Nat.le_add_right _ _)

/-- **Every step keeps the invariant.** -/
theorem step (h : Accounts s) {o : Op ι τ} (hl : Legal s o) : Accounts (step s o) := by
  cases o with
  | addTask task =>
    refine ⟨?_, ?_, h.ran, h.drained⟩
    · simp only [ThreadPool.step, ← List.append_assoc, h.fifo]
    · simp only [ThreadPool.step, List.map_append, h.numbers, List.map_singleton,
        List.length_append, List.length_singleton, List.range_succ]
  | notifyOne target =>
    refine ⟨h.fifo, h.numbers, fun k => ?_, h.drained⟩
    refine (h.ran k).trans (congrArg (· + _) (count_congr fun j => ?_).symm)
    exact place_notify rfl (.inl ⟨target, rfl⟩) hl j
  | turn i => exact h.turn hl
  | finish i =>
    obtain ⟨job, hi⟩ := hl
    rw [step_finish hi]
    refine ⟨h.fifo, h.numbers, fun k => ?_, h.drained⟩
    have hcount : (s.goto i .ready).running k + (job.no == k).toNat = s.running k := by
      have hgoto := running_goto (s := s) (i := i) (k := k) .ready
      rwa [hi] at hgoto
    show times k s.taken = (s.goto i .ready).running k + times k (s.finished ++ [job])
    rw [times_append, times_singleton, h.ran, ← hcount]
    omega
  | wake i =>
    have hi : s.place i = .parked := hl
    refine ⟨h.fifo, h.numbers, fun k => ?_, h.drained⟩
    refine (h.ran k).trans (congrArg (· + _) (running_goto_idle ?_ rfl).symm)
    rw [hi]
    rfl
  | close => exact ⟨h.fifo, h.numbers, h.ran, h.drained⟩
  | notifyAll =>
    refine ⟨h.fifo, h.numbers, fun k => ?_, h.drained⟩
    refine (h.ran k).trans (congrArg (· + _) (count_congr fun j => ?_).symm)
    exact place_notify rfl (.inr rfl) hl j

omit [DecidableEq ι] in
theorem new : Accounts (.new : State ι τ) := by
  refine ⟨rfl, rfl, fun k => ?_, le_rfl⟩
  exact (count_eq_zero_iff.mpr fun _ => rfl).symm

end Accounts

theorem accounts_safe [DecidableEq ι] : (machine ι τ).Safe Accounts where
  init _ hs := hs.2 ▸ .new
  step _ _ hs hl := ⟨_, rfl, hs.step hl⟩

end Invariant

/-! ## Leaving -/

variable [DecidableEq ι]

/-- **A worker leaves in a turn of its own**, when the pool is closed and the queue is empty. -/
theorem leaves {o : Op ι τ} (hl : Legal s o) (hbefore : s.place i ≠ .left)
    (hafter : (step s o).place i = .left) :
    o = .turn i ∧ s.pool.isClosed = true ∧ s.pool.taskQue = [] ∧
      (step s o).drained = s.added.length := by
  have hgoto : ∀ {j : ι} {worker : Worker τ}, Function.update s.place j worker i = .left →
      i = j ∧ worker = .left := by
    intro j worker h
    obtain rfl | hne := eq_or_ne i j
    · exact ⟨rfl, by rwa [Function.update_self] at h⟩
    · rw [Function.update_of_ne hne] at h
      exact absurd h hbefore
  cases o with
  | addTask task => exact absurd hafter hbefore
  | notifyOne target =>
    have hsame := place_notify (f := Worker.hasLeft) rfl (.inl ⟨target, rfl⟩) hl i
    exact absurd (hasLeft_iff.mp (hsame.symm.trans (hasLeft_iff.mpr hafter))) hbefore
  | turn j =>
    rcases hq : s.pool.taskQue with _ | ⟨job, rest⟩
    · cases hc : s.pool.isClosed
      · rw [step_turn_open hq hc] at hafter
        cases (hgoto hafter).2
      · rw [step_turn_closed hq hc] at hafter ⊢
        obtain ⟨rfl, -⟩ := hgoto hafter
        exact ⟨rfl, rfl, rfl, rfl⟩
    · rw [step_turn_cons hq] at hafter
      cases (hgoto hafter).2
  | finish j =>
    obtain ⟨job, hj⟩ := hl
    rw [step_finish hj] at hafter
    cases (hgoto hafter).2
  | wake j => cases (hgoto hafter).2
  | close => exact absurd hafter hbefore
  | notifyAll =>
    have hsame := place_notify (f := Worker.hasLeft) rfl (.inr rfl) hl i
    exact absurd (hasLeft_iff.mp (hsame.symm.trans (hasLeft_iff.mpr hafter))) hbefore

/-- No task is added once the pool is closed. -/
def InTime (s : State ι τ) : Op ι τ → Prop
  | .addTask _ => s.pool.isClosed = false
  | _ => True

/-- A closed pool that is drained stays so. -/
theorem step_drained {o : Op ι τ} (ho : InTime s o) (hc : s.pool.isClosed = true)
    (hd : s.drained = s.added.length) :
    (step s o).pool.isClosed = true ∧ (step s o).drained = (step s o).added.length := by
  cases o with
  | addTask task =>
    have hopen : s.pool.isClosed = false := ho
    rw [hc] at hopen
    cases hopen
  | turn i =>
    rcases hq : s.pool.taskQue with _ | ⟨job, rest⟩
    · rw [step_turn_closed hq hc]
      exact ⟨hc, rfl⟩
    · rw [step_turn_cons hq]
      exact ⟨hc, hd⟩
  | finish i =>
    rw [step]
    split <;> exact ⟨hc, hd⟩
  | close => exact ⟨rfl, hd⟩
  | _ => exact ⟨hc, hd⟩

variable [Fintype ι]

/-- **In a run in time, a worker that has left has seen every task.** -/
theorem drained_of_inTime (h : ((machine ι τ).restrict InTime).Reach s) (hi : s.place i = .left) :
    s.pool.isClosed = true ∧ s.drained = s.added.length := by
  refine h.invariant (I := fun s => ∀ i, s.place i = .left →
    s.pool.isClosed = true ∧ s.drained = s.added.length) ?_ ?_ i hi
  · rintro s ⟨-, rfl⟩ i hi
    cases hi
  · rintro s o s' hs ⟨hl, htime⟩ he i hi
    obtain rfl := Except.ok.inj he
    by_cases hbefore : s.place i = .left
    · obtain ⟨hc, hd⟩ := hs i hbefore
      exact step_drained htime hc hd
    · obtain ⟨rfl, hc, hq, hd⟩ := leaves hl hbefore hi
      rw [step_turn_closed hq hc]
      exact ⟨hc, rfl⟩

theorem exists_worker (h : (machine ι τ).Reach s) : Nonempty ι :=
  h.invariant (I := fun _ => Nonempty ι) (fun _ hs => Fintype.card_pos_iff.mp hs.1)
    fun _ _ _ hs _ _ => hs

/-- **Every task is run once, in the order of the calls.**  The tasks that were taken off the queue,
then those in it, are those that were added; each is in the queue, with one worker, or finished.  A
worker leaves only when the pool is closed and the queue is empty, and when all have left, every
task has been run that was added before the last of them did: every task at all, if none is added
to a closed pool. -/
theorem tasks_run_once (h : (machine ι τ).Reach s) :
    s.taken ++ s.pool.taskQue = s.added ∧
    s.added.map Job.no = List.range s.added.length ∧
    (∀ k < s.added.length, times k s.pool.taskQue + s.running k + times k s.finished = 1) ∧
    (∀ i o, Legal s o → s.place i ≠ .left → (step s o).place i = .left →
      s.pool.isClosed = true ∧ s.pool.taskQue = [] ∧ (step s o).drained = s.added.length) ∧
    ((∀ i, s.place i = .left) → ∀ k < s.drained, times k s.finished = 1) ∧
    (((machine ι τ).restrict InTime).Reach s → (∀ i, s.place i = .left) →
      ∀ k < s.added.length, times k s.finished = 1) := by
  have hacc : Accounts s := accounts_safe.reach h
  have hdrained : (∀ i, s.place i = .left) → ∀ k < s.drained, times k s.finished = 1 := by
    intro hleft k hk
    exact hacc.finished_of_left hleft (hk.trans_le hacc.drained)
  refine ⟨hacc.fifo, hacc.numbers, fun k hk => hacc.exactly_one hk, fun i o hl hb ha => ?_,
    hdrained, fun htime hleft k hk => ?_⟩
  · exact (leaves hl hb ha).2
  · obtain ⟨i⟩ := exists_worker h
    exact hdrained hleft k ((drained_of_inTime htime (hleft i)).2 ▸ hk)

/-- One worker takes a task, runs it and leaves. -/
theorem tasks_run_once_left : ∃ s : State (Fin 1) ℕ, (∀ i, s.place i = .left) ∧
    s.added.length = 1 ∧ times 0 s.finished = 1 := by
  have h₁ : (machine (Fin 1) ℕ).Reach _ :=
    .step (o := .addTask 7) (.init ⟨by decide, rfl⟩) trivial rfl
  have h₂ : (machine (Fin 1) ℕ).Reach _ := .step (o := .turn 0) h₁ (.inl rfl) rfl
  have h₃ : (machine (Fin 1) ℕ).Reach _ := .step (o := .finish 0) h₂ ⟨⟨0, 7⟩, rfl⟩ rfl
  have h₄ : (machine (Fin 1) ℕ).Reach _ := .step (o := .close) h₃ rfl rfl
  have h₅ : (machine (Fin 1) ℕ).Reach _ := .step (o := .turn 0) h₄ (.inl rfl) rfl
  refine ⟨_, fun i => ?_, rfl, (tasks_run_once h₅).2.2.2.2.1 (fun i => ?_) 0 (by decide)⟩
  all_goals
    obtain rfl := Subsingleton.elim i 0
    rfl

end ThreadPool

end WebServer
