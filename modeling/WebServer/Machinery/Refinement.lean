import WebServer.Machinery.Machine

/-!
# Machinery/Refinement — a machine seen through a map onto another

`M` refines `N` through `abs` if each of its steps is a run of `N`, which may be empty.  What is
known of every state of `N` is then known of what `abs` makes of the states of `M`; and since it may
be used to show the steps, an invariant of `M` need only speak of what `abs` forgets.
-/

universe u v w u' v' w'

namespace Machine

variable {ε : Type u} {σ : Type v} {ω : Type w} {ε' : Type u'} {τ : Type v'} {ω' : Type w'}
  {M : Machine ε σ ω} {N : Machine ε' τ ω'} {abs : σ → τ} {I : σ → Prop} {s s' : σ}

/-- Each step of `M` is a run of `N`, seen through `abs`, and keeps `I`. -/
structure Refines (M : Machine ε σ ω) (N : Machine ε' τ ω') (abs : σ → τ) (I : σ → Prop) :
    Prop where
  init : ∀ s, M.init s → N.init (abs s) ∧ I s
  step : ∀ s o s', N.Reach (abs s) → I s → M.legal s o → M.exec s o = .ok s' →
    N.Leads (abs s) (abs s') ∧ I s'

/-- A run of one step. -/
theorem Leads.one {o : ω} (hl : M.legal s o) (he : M.exec s o = .ok s') : M.Leads s s' :=
  .single ⟨o, hl, he⟩

/-- **Every state of `M` is one of `N`**, seen through `abs`. -/
theorem Refines.reach (h : M.Refines N abs I) (hs : M.Reach s) : N.Reach (abs s) ∧ I s := by
  refine hs.invariant (I := fun s => N.Reach (abs s) ∧ I s) ?_ ?_
  · intro s hinit
    exact ⟨.init (h.init s hinit).1, (h.init s hinit).2⟩
  · rintro s o s' ⟨hreach, hI⟩ hl he
    obtain ⟨hleads, hI'⟩ := h.step s o s' hreach hI hl he
    exact ⟨hreach.leads hleads, hI'⟩

end Machine
