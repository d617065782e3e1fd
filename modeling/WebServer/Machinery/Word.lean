import Mathlib

/-!
# Machinery/Word — unsigned 64-bit and signed 32-bit arithmetic

Words are naturals, and the operations on them wrap.  Each operation has the lemma that says when
it does not.
-/

namespace Word

/-- Addition of 64-bit words. -/
def add (a b : ℕ) : ℕ := (a + b) % 2 ^ 64

/-- Subtraction of 64-bit words. -/
def sub (a b : ℕ) : ℕ := (a + (2 ^ 64 - b % 2 ^ 64)) % 2 ^ 64

/-- The conversion of a wider integer to a signed 32-bit one: its low half, in two's complement. -/
def int32 (z : ℤ) : ℤ := (z + 2 ^ 31) % 2 ^ 32 - 2 ^ 31

/-- The conversion of a signed integer to a 64-bit word. -/
def ofInt (z : ℤ) : ℕ := (z % 2 ^ 64).toNat

theorem add_of_lt {a b : ℕ} (h : a + b < 2 ^ 64) : add a b = a + b := Nat.mod_eq_of_lt h

theorem sub_of_le {a b : ℕ} (h : b ≤ a) (ha : a < 2 ^ 64) : sub a b = a - b := by
  unfold sub
  omega

theorem int32_of_lt {a : ℕ} (h : a < 2 ^ 31) : int32 a = a := by
  unfold int32
  omega

theorem int32_lt (z : ℤ) : int32 z < 2 ^ 31 := by
  unfold int32
  omega

theorem int32_eq_zero_iff {a : ℕ} (h : a < 2 ^ 32) : int32 a = 0 ↔ a = 0 := by
  unfold int32
  omega

/-- The low half of a 64-bit word is that of the integer it comes from. -/
theorem int32_emod (z : ℤ) : int32 (z % 2 ^ 64) = int32 z := by
  unfold int32
  omega

/-- An integer below `2 ^ 31` is cut off at 0 if and only if it is not negative, or its low half
is 0. -/
theorem int32_eq_max_iff {z : ℤ} (h : z < 2 ^ 31) : int32 z = max 0 z ↔ 0 ≤ z ∨ 2 ^ 32 ∣ z := by
  unfold int32
  omega

theorem ofInt_natCast {n : ℕ} (h : n < 2 ^ 64) : ofInt n = n := by
  unfold ofInt
  omega

end Word
