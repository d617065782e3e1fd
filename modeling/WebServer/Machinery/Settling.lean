import WebServer.Machinery.Machine

/-!
# Machinery/Settling — machines that come to rest

Some operations of a machine cost something, as they come from outside; the others are its own.  A
machine settles if a potential pays for the own ones: each lowers it, and one from outside raises it
by less than its cost.  Then a run has no more operations than the potential and the costs allow
(`Settles.length_le`), and from every state the machine's own operations lead to one where it rests
(`Settles.exists_rest`).
-/

universe u v w

namespace Machine

variable {ε : Type u} {σ : Type v} {ω : Type w} {M : Machine ε σ ω} {s s' s'' : σ} {o : ω}
  {ops ops' : List ω}

/-- A run, with its operations. -/
inductive Runs (M : Machine ε σ ω) : σ → List ω → σ → Prop
  | nil {s : σ} : Runs M s [] s
  | cons {s s' s'' : σ} {o : ω} {ops : List ω} (hl : M.legal s o) (he : M.exec s o = .ok s')
      (h : Runs M s' ops s'') : Runs M s (o :: ops) s''

theorem Reach.runs (hs : M.Reach s) (h : M.Runs s ops s') : M.Reach s' := by
  induction h with
  | nil => exact hs
  | cons hl he _ ih => exact ih (hs.step hl he)

theorem Runs.append (h : M.Runs s ops s') (h' : M.Runs s' ops' s'') :
    M.Runs s (ops ++ ops') s'' := by
  induction h with
  | nil => exact h'
  | cons hl he _ ih => exact .cons hl he (ih h')

section Restrict

variable {P : σ → ω → Prop}

theorem Runs.of_restrict (h : (M.restrict P).Runs s ops s') : M.Runs s ops s' := by
  induction h with
  | nil => exact .nil
  | cons hl he _ ih => exact .cons hl.1 he ih

end Restrict

/-- Nothing is left to do, but for what comes from outside. -/
def Rests (M : Machine ε σ ω) (cost : ω → ℕ) (s : σ) : Prop := ∀ o, M.legal s o → cost o ≠ 0

/-- In the states of `I`, no operation fails or leaves `I`, and the potential pays for it. -/
structure Settles (M : Machine ε σ ω) (I : σ → Prop) (potential : σ → ℕ) (cost : ω → ℕ) :
    Prop where
  step : ∀ s o, I s → M.legal s o →
    ∃ s', M.exec s o = .ok s' ∧ I s' ∧ potential s' < potential s + cost o

namespace Settles

variable {I : σ → Prop} {potential : σ → ℕ} {cost : ω → ℕ}

/-- **A run is no longer than the potential at its start and the costs along it.** -/
theorem length_le (h : M.Settles I potential cost) (hs : I s) (hruns : M.Runs s ops s') :
    ops.length + potential s' ≤ potential s + (ops.map cost).sum := by
  induction hruns with
  | nil => simp
  | cons hl he _ ih =>
    obtain ⟨t, ht, hI, hlt⟩ := h.step _ _ hs hl
    rw [he] at ht
    obtain rfl := Except.ok.inj ht
    have hle := ih hI
    rw [List.length_cons, List.map_cons, List.sum_cons]
    omega

/-- **The machine's own operations lead to rest.** -/
theorem exists_rest (h : M.Settles I potential cost) (hs : I s) :
    ∃ ops s', M.Runs s ops s' ∧ (∀ o ∈ ops, cost o = 0) ∧ I s' ∧ M.Rests cost s' := by
  induction hn : potential s using Nat.strong_induction_on generalizing s with
  | _ n ih =>
    by_cases hrest : M.Rests cost s
    · exact ⟨[], s, .nil, by simp, hs, hrest⟩
    · obtain ⟨o, ho⟩ := not_forall.mp hrest
      obtain ⟨hl, hfree⟩ := Classical.not_imp.mp ho
      have hfree : cost o = 0 := not_not.mp hfree
      obtain ⟨s₁, he, hI, hlt⟩ := h.step s o hs hl
      obtain ⟨ops, s', hruns, hops, hend⟩ := ih _ (by omega) hI rfl
      exact ⟨o :: ops, s', .cons hl he hruns, List.forall_mem_cons.mpr ⟨hfree, hops⟩, hend⟩

end Settles

end Machine
