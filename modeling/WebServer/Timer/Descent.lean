import WebServer.Timer.Update

/-!
# Timer/Descent — `_siftdown` by itself, on any heap with one node out of place

The heap is indexed from its root on.  A pass only exchanges a node with one of its children, so the
nodes that move are those at the position it starts from and below it.
-/

namespace WebServer

namespace Timer

open HeapOrder

variable {κ : Type} {t t' t'' : Timer κ} {i j : ℕ}

/-- `t'` is `t` with nodes moved among the positions from `i` on downwards. -/
def PermutesBelow (i : ℕ) (t t' : Timer κ) : Prop :=
  ∃ π, Moved π t t' ∧ ∀ k, ¬ Below i k → π k = k

theorem PermutesBelow.refl (i : ℕ) (t : Timer κ) : PermutesBelow i t t :=
  ⟨_, .refl t, fun _ _ => rfl⟩

/-- One exchange more. -/
theorem PermutesBelow.swap (h : PermutesBelow i t t') {j k : ℕ} (hj : Below i j) (hk : Below i k)
    (hmoved : Moved (Equiv.swap j k) t' t'') : PermutesBelow i t t'' := by
  obtain ⟨π, hπ, hfix⟩ := h
  refine ⟨_, hπ.trans hmoved, fun m hm => ?_⟩
  have hmj : m ≠ j := fun hmj => hm (hmj ▸ hj)
  have hmk : m ≠ k := fun hmk => hm (hmk ▸ hk)
  rw [Equiv.trans_apply, Equiv.swap_apply_of_ne_of_ne hmj hmk, hfix m hm]

theorem PermutesBelow.permutes (h : PermutesBelow i t t') : Permutes 0 t t' := by
  obtain ⟨π, hπ, -⟩ := h
  exact ⟨π, hπ, fun k hk => absurd hk (Nat.not_lt_zero k)⟩

/-- Where a pass of `_siftdown` stands, when it has started from `i`. -/
structure Descending (i : ℕ) (t₀ : Timer κ) (s : Timer κ × ℕ) : Prop where
  permutes : PermutesBelow i t₀ s.1
  below : Below i s.2
  lt : s.2 < s.1.heap.length

/-- **A pass stays below where it has started.** -/
theorem Descending.pass {s s' : Timer κ × ℕ} (h : Descending i t s) (hexact : RefExact 0 t)
    (hpass : siftdownPass s = .ok (.next s')) : Descending i t s' := by
  obtain ⟨t₁, k⟩ := s
  obtain ⟨hperm, hk, hin⟩ := h
  obtain ⟨he, -⟩ | ⟨j, t₂, he, hmoved, -, hjn, hjk, -⟩ :=
    siftdownPass_cases (hexact.permutes hperm.permutes) (Nat.zero_le k) hin
  · rw [he] at hpass
    cases hpass
  · rw [he] at hpass
    cases hpass
    have hj : Below i j := .child (hjk.symm ▸ hk)
    refine ⟨hperm.swap hk hj hmoved, hj, ?_⟩
    rw [hmoved.length_eq]
    exact hjn

/-- **Only nodes at the position and below it move.** -/
theorem siftdown_frame (hexact : RefExact 0 t) (h : t.siftdown i = .ok t') :
    PermutesBelow i t t' := by
  obtain ⟨_, hin, h⟩ := bind_eq_ok.mp h
  refine Loop.run_ok (I := Descending i t) (Q := PermutesBelow i t)
    (fun s s' hs hpass => hs.pass hexact hpass) ?_ _ (t, i)
    ⟨.refl i t, .refl i, assert_eq_ok hin⟩ h
  rintro ⟨t₁, k⟩ t₂ ⟨hperm, -, hk⟩ hpass
  obtain ⟨he, -⟩ | ⟨j, t₃, he, -⟩ :=
    siftdownPass_cases (hexact.permutes hperm.permutes) (Nat.zero_le k) hk
  · rw [he] at hpass
    cases hpass
    exact hperm
  · rw [he] at hpass
    cases hpass

/-- **`_siftdown` orders a heap in which only the pairs of `i` and its children are out of order**,
keeps the index exact, and moves nothing but what is at `i` and below. -/
theorem siftdown_orders (hexact : RefExact 0 t) (hin : i < t.heap.length)
    (hord : DownOrdered t.heap.length t.key i) :
    ∃ t', t.siftdown i = .ok t' ∧ PermutesBelow i t t' ∧ RefExact 0 t' ∧
      Ordered t'.heap.length t'.key := by
  obtain ⟨t', he, hperm, hord'⟩ := siftdown_spec hexact (Nat.zero_le i) hin hord
  exact ⟨t', he, siftdown_frame hexact he, hexact.permutes hperm, hord'⟩

/-- A root with a deadline after its child's. -/
theorem siftdown_orders_two : ∃ t', (two 30 20).siftdown 0 = .ok t' ∧
    PermutesBelow 0 (two 30 20) t' ∧ RefExact 0 t' ∧ Ordered t'.heap.length t'.key := by
  refine siftdown_orders (two_exact 30 20) (by decide) ⟨fun c hc hcn hpc => ?_, fun h => ?_⟩
  · have hlt : c < 2 := hcn
    obtain rfl : c = 1 := by omega
    exact absurd rfl hpc
  · exact absurd h (lt_irrefl 0)

end Timer

end WebServer
