import Mathlib

/-!
# Machinery/Memory — a flat memory of bytes, and the words in it

A word is the number that eight bytes say, the lowest first.  `pow_dvd_word_iff` reads the zeros at
its low end off the memory, which is what a `clear` that ends inside a word is about.
-/

/-- A byte at every address. -/
abbrev Memory := ℕ → UInt8

namespace Memory

/-- The `n` bytes from `p` on. -/
def read (m : Memory) (p n : ℕ) : List UInt8 := (List.range n).map fun i => m (p + i)

/-- The number that the `n` bytes from `p` on say. -/
def value (m : Memory) (p n : ℕ) : ℕ := Nat.ofDigits 256 ((m.read p n).map UInt8.toNat)

/-- The 64-bit word at `p`. -/
def word (m : Memory) (p : ℕ) : ℕ := m.value p 8

/-- The memory with zeros in the `n` bytes from `p` on. -/
def clear (m : Memory) (p n : ℕ) : Memory := fun a => if p ≤ a ∧ a < p + n then 0 else m a

variable {m : Memory} {p n a : ℕ}

@[simp] theorem length_read (m : Memory) (p n : ℕ) : (m.read p n).length = n := by simp [read]

theorem word_lt (m : Memory) (p : ℕ) : m.word p < 2 ^ 64 := by
  have hlt := Nat.ofDigits_lt_base_pow_length (l := (m.read p 8).map UInt8.toNat) (b := 256)
    (by decide) (List.forall_mem_map.mpr fun c _ => c.toNat_lt)
  rwa [List.length_map, length_read] at hlt

/-! ## Clearing -/

theorem clear_inside (hle : p ≤ a) (hlt : a < p + n) : m.clear p n a = 0 := if_pos ⟨hle, hlt⟩

/-- A clear leaves a byte as it is if and only if the byte lies outside, or was 0. -/
theorem clear_eq_iff : m.clear p n a = m a ↔ (p ≤ a → a < p + n → m a = 0) := by
  by_cases hin : p ≤ a ∧ a < p + n
  · rw [clear_inside hin.1 hin.2]
    exact ⟨fun h _ _ => h.symm, fun h => (h hin.1 hin.2).symm⟩
  · rw [clear, if_neg hin]
    exact iff_of_true rfl fun hle hlt => absurd ⟨hle, hlt⟩ hin

/-! ## The zeros of a word -/

theorem value_succ (m : Memory) (p n : ℕ) :
    m.value p (n + 1) = (m p).toNat + 256 * m.value (p + 1) n := by
  have hread : m.read p (n + 1) = m p :: m.read (p + 1) n := by
    rw [read, List.range_succ_eq_map, List.map_cons, List.map_map]
    exact congrArg _ (List.map_congr_left fun i _ => congrArg m (by simp; omega))
  rw [value, hread, List.map_cons, Nat.ofDigits_cons, value]

/-- **The low end of a number is 0 if and only if its low bytes are.** -/
theorem pow_dvd_value_iff {k : ℕ} (hk : k ≤ n) :
    256 ^ k ∣ m.value p n ↔ ∀ i < k, m (p + i) = 0 := by
  induction k generalizing p n with
  | zero => simp
  | succ k ih =>
    obtain ⟨n, rfl⟩ : ∃ n', n = n' + 1 := ⟨n - 1, by omega⟩
    have hbyte := (m p).toNat_lt
    have hsplit : 256 ^ (k + 1) ∣ m.value p (n + 1) ↔
        (m p).toNat = 0 ∧ 256 ^ k ∣ m.value (p + 1) n := by
      rw [value_succ, Nat.pow_succ']
      constructor
      · intro h
        have hzero : (m p).toNat = 0 := Nat.eq_zero_of_dvd_of_lt
          ((Nat.dvd_add_left (dvd_mul_right 256 _)).mp (dvd_of_mul_right_dvd h)) hbyte
        rw [hzero, Nat.zero_add] at h
        exact ⟨hzero, Nat.dvd_of_mul_dvd_mul_left (by decide) h⟩
      · rintro ⟨hzero, h⟩
        rw [hzero, Nat.zero_add]
        exact Nat.mul_dvd_mul_left 256 h
    rw [hsplit, ih (by omega), ← UInt8.toNat_zero, UInt8.toNat_inj, Nat.forall_lt_succ_left,
      Nat.add_zero]
    refine and_congr_right fun _ => forall₂_congr fun i _ => ?_
    rw [Nat.add_right_comm, Nat.add_assoc]

theorem pow_dvd_word_iff {k : ℕ} (hk : k ≤ 8) :
    256 ^ k ∣ m.word p ↔ ∀ i < k, m (p + i) = 0 := pow_dvd_value_iff hk

end Memory
