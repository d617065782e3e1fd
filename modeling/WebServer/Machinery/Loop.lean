import Mathlib

/-!
# Machinery/Loop — loops with an exit, run on fuel

A loop body maps a state to another pass or to a result, and may fail.  `run` gives it a number of
passes; a loop that is still going when they are used up answers `out`, so a run that answers
anything else is a run of the loop itself.

* `run_total` is the rule for total correctness: an invariant, a variant, and a postcondition for
  every way of leaving.
* `run_ok` is the rule for partial correctness: what the passes keep, a loop that leaves has kept.
* `run_eq` compares a loop with a function that the passes leave unchanged.
* `Heads` are the states in which a pass starts; `Heads.invariant` is the rule for what holds there.
-/

namespace Loop

/-- What one pass does: it goes round again, or it leaves with a result. -/
inductive Pass (σ ρ : Type*) where
  | next (s : σ)
  | exit (r : ρ)
  deriving DecidableEq, Repr

variable {ε σ ρ : Type*} {out : ε} {body : σ → Except ε (Pass σ ρ)}

/-- The loop with `body`, for at most `n` passes. -/
def run (out : ε) (body : σ → Except ε (Pass σ ρ)) : ℕ → σ → Except ε ρ
  | 0, _ => .error out
  | n + 1, s =>
    match body s with
    | .error e => .error e
    | .ok (.exit r) => .ok r
    | .ok (.next s') => run out body n s'

theorem run_error {s : σ} {e : ε} (h : body s = .error e) (n : ℕ) :
    run out body (n + 1) s = .error e := by
  simp only [run, h]

theorem run_exit {s : σ} {r : ρ} (h : body s = .ok (.exit r)) (n : ℕ) :
    run out body (n + 1) s = .ok r := by
  simp only [run, h]

theorem run_next {s s' : σ} (h : body s = .ok (.next s')) (n : ℕ) :
    run out body (n + 1) s = run out body n s' := by
  simp only [run, h]

/-! ## Total correctness -/

/-- What a pass from a state with variant `k` has to establish: the postcondition if it leaves, the
invariant and a smaller variant if it goes round. -/
def Sound (I : σ → Prop) (v : σ → ℕ) (Q : Except ε ρ → Prop) (k : ℕ) :
    Except ε (Pass σ ρ) → Prop
  | .error e => Q (.error e)
  | .ok (.exit r) => Q (.ok r)
  | .ok (.next s) => I s ∧ v s < k

/-- **Invariant and variant.** If every pass is sound then the loop, given more passes than the
variant, leaves with the postcondition. -/
theorem run_total {I : σ → Prop} {v : σ → ℕ} {Q : Except ε ρ → Prop}
    (hbody : ∀ s, I s → Sound I v Q (v s) (body s)) :
    ∀ n s, I s → v s < n → Q (run out body n s)
  | 0, _, _, hv => absurd hv (Nat.not_lt_zero _)
  | n + 1, s, hs, hv => by
    have h := hbody s hs
    rcases hb : body s with e | s' | r
    · rw [run_error hb]
      simpa only [hb, Sound] using h
    · rw [hb] at h
      rw [run_next hb]
      exact run_total hbody n s' h.1 (by have := h.2; omega)
    · rw [run_exit hb]
      simpa only [hb, Sound] using h

/-- **Invariant alone.** What every pass keeps holds of the result, if the loop leaves. -/
theorem run_ok {I : σ → Prop} {Q : ρ → Prop} {r : ρ}
    (hnext : ∀ s s', I s → body s = .ok (.next s') → I s')
    (hexit : ∀ s r, I s → body s = .ok (.exit r) → Q r) :
    ∀ n s, I s → run out body n s = .ok r → Q r
  | 0, _, _, h => by cases h
  | n + 1, s, hs, h => by
    rcases hb : body s with e | s' | r'
    · rw [run_error hb] at h
      cases h
    · rw [run_next hb] at h
      exact run_ok hnext hexit n s' (hnext s s' hs hb) h
    · rw [run_exit hb] at h
      exact Except.ok.inj h ▸ hexit s r' hs hb

/-- **A loop computes any function that its passes leave unchanged.** -/
theorem run_eq {I : σ → Prop} {v : σ → ℕ} {f : σ → Except ε ρ}
    (hbody : ∀ s, I s → Sound (fun s' => I s' ∧ f s' = f s) v (fun r => r = f s) (v s) (body s))
    {n : ℕ} {s : σ} (hs : I s) (hv : v s < n) : run out body n s = f s := by
  refine run_total (I := fun s' => I s' ∧ f s' = f s) (v := v) (Q := fun r => r = f s)
    (fun s' hs' => ?_) n s ⟨hs, rfl⟩ hv
  have h := hbody s' hs'.1
  rwa [hs'.2] at h

/-! ## The states in which a pass starts -/

/-- The loop started in `s` is, at some point, about to make a pass from `s'`. -/
def Heads (body : σ → Except ε (Pass σ ρ)) : σ → σ → Prop :=
  Relation.ReflTransGen fun s s' => body s = .ok (.next s')

theorem Heads.invariant {I : σ → Prop} {s s' : σ} (h : Heads body s s')
    (hbody : ∀ t t', I t → body t = .ok (.next t') → I t') (hs : I s) : I s' := by
  induction h with
  | refl => exact hs
  | tail _ hstep ih => exact hbody _ _ ih hstep

/-- **A pass that leaves decides the run**, unless the passes are used up before it. -/
theorem Heads.run_exit {s s' : σ} (h : Heads body s s') {r : ρ} (hexit : body s' = .ok (.exit r))
    {n : ℕ} (hrun : run out body n s ≠ .error out) : run out body n s = .ok r := by
  induction h using Relation.ReflTransGen.head_induction_on generalizing n with
  | refl =>
    cases n with
    | zero => exact absurd rfl hrun
    | succ n => exact Loop.run_exit hexit n
  | head hstep _ ih =>
    cases n with
    | zero => exact absurd rfl hrun
    | succ n =>
      rw [run_next hstep] at hrun ⊢
      exact ih hrun

end Loop
