import WebServer.Pool.ThreadPool

/-!
# Pool/Wakeups — the thread pool forgets no wake-up

`addTask` notifies after it has let go of `m`, so a task in the queue may still be without a
notification, and a worker that was notified may find the task taken and park again.  `Served` is
what holds all the same.
-/

namespace WebServer

namespace ThreadPool

variable {ι τ : Type} [Fintype ι] {s : State ι τ}

/-- **The invariant**: the tasks in the queue are covered by notifications, and after `notify_all`
nobody is parked. -/
structure Served (s : State ι τ) : Prop where
  covers : cond.Covers s.place s.pool.taskQue.length s.pending
  closed : s.notifiedAll = true → s.pool.isClosed = true
  released : s.notifiedAll = true → ∀ i, cond.wait (s.place i) ≠ .parked

namespace Served

theorem new : Served (.new : State ι τ) := ⟨.zero, Bool.noConfusion, Bool.noConfusion⟩

variable [DecidableEq ι]

theorem turn (h : Served s) (i : ι) : Served (step s (.turn i)) := by
  rcases hq : s.pool.taskQue with _ | ⟨job, rest⟩
  · cases hc : s.pool.isClosed
    · rw [step_turn_open hq hc]
      refine ⟨?_, h.closed, fun hall => ?_⟩
      · rw [State.goto, hq]
        exact .zero
      · rw [h.closed hall] at hc
        cases hc
    · rw [step_turn_closed hq hc]
      refine ⟨?_, h.closed, fun hall => ?_⟩
      · rw [State.goto, hq]
        exact .zero
      · exact CondVar.not_parked_update (h.released hall) Wait.noConfusion
  · rw [step_turn_cons hq]
    have hcovers := h.covers
    rw [hq] at hcovers
    refine ⟨hcovers.take Wait.noConfusion, h.closed, fun hall => ?_⟩
    exact CondVar.not_parked_update (h.released hall) Wait.noConfusion

/-- **Every step keeps the invariant.** -/
theorem step (h : Served s) {o : Op ι τ} (hl : Legal s o) : Served (step s o) := by
  cases o with
  | addTask task =>
    refine ⟨?_, h.closed, h.released⟩
    simp only [ThreadPool.step, List.length_append, List.length_singleton]
    exact h.covers.add
  | notifyOne target =>
    obtain ⟨hpending, hpicks⟩ := hl
    obtain ⟨n, hn⟩ := Nat.exists_eq_succ_of_ne_zero hpending.ne'
    have hcovers := h.covers
    rw [hn] at hcovers
    refine ⟨?_, h.closed, fun hall => ?_⟩
    · simp only [ThreadPool.step, hn, Nat.succ_sub_one]
      exact hcovers.notifyOne hpicks
    · have hreleased := h.released hall
      rw [hpicks.eq_none hreleased]
      exact hreleased
  | turn i => exact h.turn i
  | finish i =>
    obtain ⟨job, hi⟩ := hl
    rw [step_finish hi]
    refine ⟨h.covers.stay (by rw [hi]; rfl), h.closed, fun hall => ?_⟩
    exact CondVar.not_parked_update (h.released hall) Wait.noConfusion
  | wake i =>
    have hi : s.place i = .parked := hl
    refine ⟨h.covers.leave (by rw [hi]; exact Wait.noConfusion) Wait.noConfusion, h.closed,
      fun hall => ?_⟩
    exact CondVar.not_parked_update (h.released hall) Wait.noConfusion
  | close => exact ⟨h.covers, fun _ => rfl, h.released⟩
  | notifyAll =>
    have hfree := cond.not_parked_notifyAll s.place
    exact ⟨.of_parked hfree, fun _ => hl.1, fun _ => hfree⟩

end Served

variable [DecidableEq ι]

theorem served_safe : (machine ι τ).Safe Served where
  init _ hs := hs.2 ▸ .new
  step _ _ hs hl := ⟨_, rfl, hs.step hl⟩

/-- **The thread pool forgets no wake-up.**  With a worker parked and not notified, the tasks in the
queue are no more than the workers that have been notified and have not locked `m` again, and the
calls of `addTask` that have not notified yet.  Once the destructor has notified, no worker is
parked, and so it stays. -/
theorem wakeups_kept (h : (machine ι τ).Reach s) :
    ((∃ i, s.place i = .parked) →
      s.pool.taskQue.length ≤ cond.notified s.place + s.pending) ∧
    (s.notifiedAll = true →
      (∀ i, s.place i ≠ .parked) ∧ ∀ o, (step s o).notifiedAll = true) := by
  have hserved : Served s := served_safe.reach h
  refine ⟨fun ⟨i, hi⟩ => ?_, fun hall => ⟨fun i hi => ?_, fun o => ?_⟩⟩
  · exact hserved.covers (CondVar.parked_pos_iff.mpr ⟨i, wait_parked_iff.mpr hi⟩)
  · exact hserved.released hall i (wait_parked_iff.mpr hi)
  · exact step_notifiedAll hall

/-- A worker waits and a task is added: the notification for it is still to come. -/
theorem wakeups_kept_added : ∃ s : State (Fin 2) ℕ, s.place 0 = .parked ∧
    s.pool.taskQue.length = 1 ∧ 1 ≤ cond.notified s.place + s.pending := by
  have h₁ : (machine (Fin 2) ℕ).Reach _ :=
    .step (o := .turn 0) (.init ⟨by decide, rfl⟩) (.inl rfl) rfl
  have h₂ : (machine (Fin 2) ℕ).Reach _ := .step (o := .addTask 7) h₁ trivial rfl
  exact ⟨_, rfl, rfl, (wakeups_kept h₂).1 ⟨0, rfl⟩⟩

end ThreadPool

end WebServer
