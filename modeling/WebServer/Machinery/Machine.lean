import Mathlib

/-!
# Machinery/Machine — guarded operations, and what holds in every state they reach

A machine has starting states, operations that are legal in some states, and a partial step for
each.  `Safe I` is what is shown of one step: `I` holds at the start, and a legal operation in a
state of `I` does not fail and leads back into `I`.  `Safe.reach` and `Safe.step_of_reach` are what
follows for runs of any length.
-/

universe u v w

/-- Starting states, the operations legal in a state, and what an operation does. -/
structure Machine (ε : Type u) (σ : Type v) (ω : Type w) where
  init : σ → Prop
  legal : σ → ω → Prop
  exec : σ → ω → Except ε σ

namespace Machine

variable {ε : Type u} {σ : Type v} {ω : Type w} {M : Machine ε σ ω} {I : σ → Prop}

/-- The machine in which an operation must meet the condition `P` as well. -/
def restrict (M : Machine ε σ ω) (P : σ → ω → Prop) : Machine ε σ ω :=
  { M with legal := fun s o => M.legal s o ∧ P s o }

/-- A state some run of legal operations ends in. -/
inductive Reach (M : Machine ε σ ω) : σ → Prop
  | init {s : σ} (h : M.init s) : Reach M s
  | step {s s' : σ} {o : ω} (hs : Reach M s) (hl : M.legal s o) (he : M.exec s o = .ok s') :
      Reach M s'

/-- **What the start has and every successful step keeps, every reached state has.** -/
theorem Reach.invariant {s : σ} (hs : M.Reach s) (hinit : ∀ s, M.init s → I s)
    (hstep : ∀ s o s', I s → M.legal s o → M.exec s o = .ok s' → I s') : I s := by
  induction hs with
  | init h₀ => exact hinit _ h₀
  | step _ hl he ih => exact hstep _ _ _ ih hl he

/-- A run whose operations meet a condition is a run. -/
theorem Reach.of_restrict {P : σ → ω → Prop} {s : σ} (hs : (M.restrict P).Reach s) : M.Reach s := by
  induction hs with
  | init h₀ => exact .init h₀
  | step _ hl he ih => exact .step ih hl.1 he

/-- A run of legal operations leads from the one state to the other. -/
def Leads (M : Machine ε σ ω) : σ → σ → Prop :=
  Relation.ReflTransGen fun s s' => ∃ o, M.legal s o ∧ M.exec s o = .ok s'

theorem Reach.leads {s s' : σ} (hs : M.Reach s) (h : M.Leads s s') : M.Reach s' := by
  induction h with
  | refl => exact hs
  | tail _ hstep ih =>
    obtain ⟨o, hl, he⟩ := hstep
    exact ih.step hl he

/-- An invariant in which no legal operation fails. -/
structure Safe (M : Machine ε σ ω) (I : σ → Prop) : Prop where
  init : ∀ s, M.init s → I s
  step : ∀ s o, I s → M.legal s o → ∃ s', M.exec s o = .ok s' ∧ I s'

/-- **The invariant holds in every state a run reaches.** -/
theorem Safe.reach (h : M.Safe I) {s : σ} (hs : M.Reach s) : I s := by
  refine hs.invariant h.init fun s o s' hI hl he => ?_
  obtain ⟨s'', he', hs'⟩ := h.step s o hI hl
  rw [he] at he'
  exact Except.ok.inj he' ▸ hs'

/-- **No operation of a run fails.** -/
theorem Safe.step_of_reach (h : M.Safe I) {s : σ} (hs : M.Reach s) {o : ω} (hl : M.legal s o) :
    ∃ s', M.exec s o = .ok s' ∧ I s' :=
  h.step s o (h.reach hs) hl

end Machine
