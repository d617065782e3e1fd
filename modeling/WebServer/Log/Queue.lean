import WebServer.Log.BlockQueue

/-!
# Log/Queue — what is popped is what was pushed

The items that have been popped, then those in the queue, are those that have been pushed, and there
are never more than `_capacity` of them in the queue.  A turn that returns false leaves all of it as
it was.
-/

namespace WebServer

namespace BlockQueue

variable {ι T : Type} {s s' : State ι T} {i : ι} {c : Call T} {stage : Stage} {expired : Bool}
  {target : Option ι}

/-- **The invariant.** -/
structure Exact (s : State ι T) : Prop where
  bound : s.queue.q.length ≤ s.queue.capacity
  fifo : s.popped ++ s.queue.q = s.pushed

variable [DecidableEq ι]

namespace Exact

theorem ran (h : Exact s) (hran : Ran s i stage expired target c s') : Exact s' := by
  cases hran with
  | parks => exact ⟨h.bound, h.fifo⟩
  | refused => exact ⟨h.bound, h.fifo⟩
  | pushed hopen hroom =>
    refine ⟨?_, ?_⟩
    · show (s.queue.q ++ [_]).length ≤ s.queue.capacity
      rw [List.length_append]
      exact hroom
    · show s.popped ++ (s.queue.q ++ [_]) = s.pushed ++ [_]
      rw [← List.append_assoc, h.fifo]
  | @popped c item rest hopen hc hq =>
    obtain ⟨hbound, hfifo⟩ := h
    rw [hq] at hbound hfifo
    refine ⟨(Nat.le_succ _).trans hbound, ?_⟩
    show s.popped ++ [item] ++ rest = s.pushed
    rw [List.append_assoc]
    exact hfifo

/-- **Every step succeeds and keeps the invariant.** -/
theorem step (h : Exact s) {o : Op ι T} (hl : Legal s o) :
    ∃ s', exec s o = .ok s' ∧ Exact s' := by
  cases o with
  | run i expired target =>
    obtain ⟨c, stage, hi, -, -⟩ := hl
    obtain ⟨s', he, hran⟩ := exec_run hi expired target
    exact ⟨s', he, h.ran hran⟩
  | wake i =>
    obtain ⟨c, hi⟩ := hl
    exact ⟨_, exec_wake hi, h.bound, h.fifo⟩
  | _ => exact ⟨_, rfl, h.bound, h.fifo⟩

end Exact

theorem exact_safe : (machine ι T).Safe Exact where
  init s hs := by
    obtain ⟨capacity, -, rfl⟩ := hs
    exact ⟨Nat.zero_le _, rfl⟩
  step _ _ hs hl := hs.step hl

/-- **The queue loses, doubles and reorders nothing.**  No step of a run fails, so nothing is taken
from an empty queue; there is never more in it than its capacity; and what was popped, then what is
in it, is what was pushed.  A turn that returns false has changed nothing but the place of its
thread; one that returns true has pushed its item, or popped the front. -/
theorem queue_exact (h : (machine ι T).Reach s) :
    (∀ o, Legal s o → ∃ s', exec s o = .ok s') ∧
    s.queue.q.length ≤ s.queue.capacity ∧
    s.popped ++ s.queue.q = s.pushed ∧
    ∀ i c stage expired target s', s.place i = .within c stage →
      exec s (.run i expired target) = .ok s' →
      (s'.place i = .idle (some false) → s'.queue = s.queue ∧ s'.pushed = s.pushed ∧
        s'.popped = s.popped ∧ ∀ j ≠ i, s'.place j = s.place j) ∧
      (s'.place i = .idle (some true) →
        (∃ item, c = .push item ∧ s'.queue.q = s.queue.q ++ [item] ∧
          s'.pushed = s.pushed ++ [item] ∧ s'.popped = s.popped) ∨
        ∃ item, c.consumes = true ∧ s.queue.q = item :: s'.queue.q ∧
          s'.popped = s.popped ++ [item] ∧ s'.pushed = s.pushed) := by
  have hexact : Exact s := exact_safe.reach h
  refine ⟨fun o hl => ?_, hexact.bound, hexact.fifo, fun i c stage expired target s' hi he => ?_⟩
  · obtain ⟨s', he, -⟩ := hexact.step hl
    exact ⟨s', he⟩
  · have hran := ran_of_exec hi he
    cases hran with
    | parks =>
      refine ⟨fun hret => ?_, fun hret => ?_⟩
      all_goals
        have hplace := (Function.update_self i _ _).symm.trans hret
        cases hplace
    | refused =>
      refine ⟨fun _ => ⟨rfl, rfl, rfl, fun j hj => Function.update_of_ne hj _ _⟩, fun hret => ?_⟩
      have hplace := (Function.update_self i _ _).symm.trans hret
      cases hplace
    | @pushed item hopen hroom =>
      refine ⟨fun hret => ?_, fun _ => .inl ⟨item, rfl, rfl, rfl, rfl⟩⟩
      have hplace := (Function.update_self i _ _).symm.trans hret
      cases hplace
    | @popped c item rest hopen hc hq =>
      refine ⟨fun hret => ?_, fun _ => .inr ⟨item, hc, hq, rfl, rfl⟩⟩
      have hplace := (Function.update_self i _ _).symm.trans hret
      cases hplace

/-- A push has returned, and a pop takes what it pushed. -/
theorem queue_exact_popped : ∃ s : State (Fin 2) ℕ, s.popped = [7] ∧
    s.queue.q.length ≤ 1 ∧ s.popped ++ s.queue.q = s.pushed := by
  have h₁ : (machine (Fin 2) ℕ).Reach _ :=
    .step (o := .call 0 (.push 7)) (.init ⟨1, by decide, rfl⟩) ⟨none, rfl⟩ rfl
  have h₂ : (machine (Fin 2) ℕ).Reach _ :=
    .step (o := .run 0 false none) h₁ ⟨_, _, rfl, by decide, by decide⟩ rfl
  have h₃ : (machine (Fin 2) ℕ).Reach _ := .step (o := .call 1 .pop) h₂ ⟨none, rfl⟩ rfl
  have h₄ : (machine (Fin 2) ℕ).Reach _ :=
    .step (o := .run 1 false none) h₃ ⟨_, _, rfl, by decide, by decide⟩ rfl
  exact ⟨_, rfl, (queue_exact h₄).2.1, (queue_exact h₄).2.2.1⟩

end BlockQueue

end WebServer
