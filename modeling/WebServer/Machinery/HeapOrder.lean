import Mathlib

/-!
# Machinery/HeapOrder — the order of a binary heap, and what its sifts do to it

Positions are numbers, and a heap of `n` of them is read through the `key` at each.  `UpOrdered` and
`DownOrdered` are the order with one position out of place, which is what a new key makes of it
(`Ordered.push`, `Ordered.replace_down`); exchanging it with its parent, or with the least of its
children, moves the place along (`UpOrdered.swap`, `DownOrdered.swap`), and when it can stay the
heap is ordered (`UpOrdered.ordered`, `DownOrdered.ordered`).
-/

namespace HeapOrder

variable {K : Type*} [Preorder K] {n i j c : ℕ} {key : ℕ → K}

/-- The parent of a position other than 0. -/
def parent (c : ℕ) : ℕ := (c - 1) / 2

theorem parent_lt (hc : 0 < c) : parent c < c := by
  unfold parent
  omega

theorem parent_eq_iff (hc : 0 < c) : parent c = i ↔ c = 2 * i + 1 ∨ c = 2 * i + 2 := by
  unfold parent
  omega

/-- No child is before its parent. -/
def Ordered (n : ℕ) (key : ℕ → K) : Prop := ∀ c, 0 < c → c < n → key (parent c) ≤ key c

/-- **The root is the least.** -/
theorem Ordered.root_le (h : Ordered n key) {k : ℕ} (hk : k < n) : key 0 ≤ key k := by
  induction k using Nat.strongRecOn with
  | ind k ih =>
    obtain rfl | hk0 := Nat.eq_zero_or_pos k
    · exact le_rfl
    · have hp := parent_lt hk0
      exact (ih (parent k) hp (by omega)).trans (h k hk0 hk)

/-- The pairs of parent and child are in order but for the one of `i` and its parent, and the
children of `i` are not before its parent. -/
structure UpOrdered (n : ℕ) (key : ℕ → K) (i : ℕ) : Prop where
  pairs : ∀ c, 0 < c → c < n → c ≠ i → key (parent c) ≤ key c
  across : 0 < i → ∀ c, 0 < c → c < n → parent c = i → key (parent i) ≤ key c

/-- The pairs of parent and child are in order but for those of `i` and its children, which are not
before the parent of `i`. -/
structure DownOrdered (n : ℕ) (key : ℕ → K) (i : ℕ) : Prop where
  pairs : ∀ c, 0 < c → c < n → parent c ≠ i → key (parent c) ≤ key c
  across : 0 < i → ∀ c, 0 < c → c < n → parent c = i → key (parent i) ≤ key c

/-! ## One key changes -/

/-- A new last position. -/
theorem Ordered.push (h : Ordered n key) {key' : ℕ → K} (hkey : ∀ k < n, key' k = key k) :
    UpOrdered (n + 1) key' n := by
  constructor
  · intro c hc hcn hne
    have hpc := parent_lt hc
    rw [hkey c (by omega), hkey _ (by omega)]
    exact h c hc (by omega)
  · intro _ c hc hcn hpc
    have := parent_lt hc
    omega

/-- **A key can be changed where it stays between its parent's and its children's.** -/
theorem Ordered.update_iff (h : Ordered n key) (hn : i < n) (e : K) :
    Ordered n (Function.update key i e) ↔
      (0 < i → key (parent i) ≤ e) ∧ ∀ c, 0 < c → c < n → parent c = i → e ≤ key c := by
  constructor
  · intro hord
    refine ⟨fun hi => ?_, fun c hc hcn hpc => ?_⟩
    · have hpair := hord i hi hn
      rwa [Function.update_self, Function.update_of_ne (parent_lt hi).ne] at hpair
    · have hpair := hord c hc hcn
      rwa [hpc, Function.update_self,
        Function.update_of_ne (ne_of_gt (hpc ▸ parent_lt hc))] at hpair
  · rintro ⟨habove, hbelow⟩ c hc hcn
    obtain rfl | hci := eq_or_ne c i
    · rw [Function.update_self, Function.update_of_ne (parent_lt hc).ne]
      exact habove hc
    · rw [Function.update_of_ne hci]
      obtain hpi | hpi := eq_or_ne (parent c) i
      · rw [hpi, Function.update_self]
        exact hbelow c hc hcn hpi
      · rw [Function.update_of_ne hpi]
        exact h c hc hcn

/-- …and if it only stays behind its parent's, it is out of place downwards. -/
theorem Ordered.replace_down (h : Ordered n key) {key' : ℕ → K}
    (hkey : ∀ k < n, k ≠ i → key' k = key k) (hn : i < n)
    (habove : 0 < i → key (parent i) ≤ key' i) : DownOrdered n key' i := by
  constructor
  · intro c hc hcn hpc
    rw [hkey _ ((parent_lt hc).trans hcn) hpc]
    obtain rfl | hci := eq_or_ne c i
    · exact habove hc
    · rw [hkey c hcn hci]
      exact h c hc hcn
  · intro hi c hc hcn hpc
    have hic : i < c := hpc ▸ parent_lt hc
    rw [hkey _ ((parent_lt hi).trans hn) (parent_lt hi).ne, hkey c hcn hic.ne']
    exact (h i hi hn).trans (hpc ▸ h c hc hcn)

/-- …and upwards, if it only stays before its parent's. -/
theorem Ordered.replace_up (h : Ordered n key) {key' : ℕ → K}
    (hkey : ∀ k < n, k ≠ i → key' k = key k) (hn : i < n) (hi : 0 < i)
    (hbefore : key' i ≤ key (parent i)) : UpOrdered n key' i := by
  have hchild : ∀ c, 0 < c → c < n → parent c = i → key (parent i) ≤ key c := fun c hc hcn hpc =>
    (h i hi hn).trans (hpc ▸ h c hc hcn)
  constructor
  · intro c hc hcn hci
    rw [hkey c hcn hci]
    obtain hpc | hpc := eq_or_ne (parent c) i
    · rw [hpc]
      exact hbefore.trans (hchild c hc hcn hpc)
    · rw [hkey _ ((parent_lt hc).trans hcn) hpc]
      exact h c hc hcn
  · intro _ c hc hcn hpc
    have hic : i < c := hpc ▸ parent_lt hc
    rw [hkey _ ((parent_lt hi).trans hn) (parent_lt hi).ne, hkey c hcn hic.ne']
    exact hchild c hc hcn hpc

/-- A heap that ends earlier. -/
theorem Ordered.mono (h : Ordered n key) {m : ℕ} (hm : m ≤ n) : Ordered m key :=
  fun c hc hcm => h c hc (hcm.trans_le hm)

/-- An ordered heap has every position in its place, downwards as well. -/
theorem Ordered.down (h : Ordered n key) (hn : i < n) : DownOrdered n key i :=
  h.replace_down (fun _ _ _ => rfl) hn fun hi => h i hi hn

/-! ## Up -/

theorem UpOrdered.ordered (h : UpOrdered n key i) (hstop : 0 < i → key (parent i) ≤ key i) :
    Ordered n key := by
  intro c hc hn
  obtain rfl | hci := eq_or_ne c i
  · exact hstop hc
  · exact h.pairs c hc hn hci

/-- **Exchanging a position with its parent moves the place up.** -/
theorem UpOrdered.swap (h : UpOrdered n key i) (hi : 0 < i) (hn : i < n)
    (hle : key i ≤ key (parent i)) :
    UpOrdered n (key ∘ Equiv.swap i (parent i)) (parent i) := by
  have hp := parent_lt hi
  constructor
  · intro c hc hcn hcp
    have hpc := parent_lt hc
    obtain rfl | hci := eq_or_ne c i
    · simpa only [Function.comp_apply, Equiv.swap_apply_left, Equiv.swap_apply_right] using hle
    · rw [Function.comp_apply, Function.comp_apply, Equiv.swap_apply_of_ne_of_ne hci hcp]
      have hpair := h.pairs c hc hcn hci
      obtain hpi | hpi := eq_or_ne (parent c) i
      · rw [hpi, Equiv.swap_apply_left]
        exact h.across hi c hc hcn hpi
      · obtain hpp | hpp := eq_or_ne (parent c) (parent i)
        · rw [hpp, Equiv.swap_apply_right]
          exact le_trans hle (hpp ▸ hpair)
        · rwa [Equiv.swap_apply_of_ne_of_ne hpi hpp]
  · intro hp0 c hc hcn hcp
    have hpp := parent_lt hp0
    have hup := h.pairs (parent i) hp0 (by omega) (by omega)
    rw [Function.comp_apply, Function.comp_apply,
      Equiv.swap_apply_of_ne_of_ne (by omega) (by omega)]
    obtain rfl | hci := eq_or_ne c i
    · rwa [Equiv.swap_apply_left]
    · have hpc := parent_lt hc
      rw [Equiv.swap_apply_of_ne_of_ne hci (by omega)]
      exact le_trans hup (hcp ▸ h.pairs c hc hcn hci)

/-! ## Down -/

theorem DownOrdered.ordered (h : DownOrdered n key i)
    (hstop : ∀ c, 0 < c → c < n → parent c = i → key i ≤ key c) : Ordered n key := by
  intro c hc hn
  obtain hpi | hpi := eq_or_ne (parent c) i
  · rw [hpi]
    exact hstop c hc hn hpi
  · exact h.pairs c hc hn hpi

/-- **Exchanging a position with the least of its children moves the place down.** -/
theorem DownOrdered.swap (h : DownOrdered n key i) (hj : 0 < j) (hn : j < n) (hji : parent j = i)
    (hleast : ∀ c, 0 < c → c < n → parent c = i → key j ≤ key c) (hle : key j ≤ key i) :
    DownOrdered n (key ∘ Equiv.swap i j) j := by
  have hij : i < j := hji ▸ parent_lt hj
  constructor
  · intro c hc hcn hcj
    have hpc := parent_lt hc
    rw [Function.comp_apply, Function.comp_apply]
    obtain rfl | hcj' := eq_or_ne c j
    · rwa [hji, Equiv.swap_apply_left, Equiv.swap_apply_right]
    · obtain rfl | hci := eq_or_ne c i
      · rw [Equiv.swap_apply_left, Equiv.swap_apply_of_ne_of_ne (by omega) hcj]
        exact h.across hc j hj hn hji
      · rw [Equiv.swap_apply_of_ne_of_ne hci hcj']
        obtain hpi | hpi := eq_or_ne (parent c) i
        · rw [hpi, Equiv.swap_apply_left]
          exact hleast c hc hcn hpi
        · rw [Equiv.swap_apply_of_ne_of_ne hpi hcj]
          exact h.pairs c hc hcn hpi
  · intro _ c hc hcn hcj
    have hpc := parent_lt hc
    rw [Function.comp_apply, Function.comp_apply, hji, Equiv.swap_apply_left,
      Equiv.swap_apply_of_ne_of_ne (by omega) (by omega)]
    exact hcj ▸ h.pairs c hc hcn (by omega)

/-! ## Descendants -/

/-- `k` is `i`, or below it. -/
def Below (i k : ℕ) : Prop := ∃ d, parent^[d] k = i

theorem Below.refl (i : ℕ) : Below i i := ⟨0, rfl⟩

/-- A child of what is below is below. -/
theorem Below.child (h : Below i (parent c)) : Below i c := by
  obtain ⟨d, hd⟩ := h
  exact ⟨d + 1, by rw [Function.iterate_succ_apply, hd]⟩

end HeapOrder
