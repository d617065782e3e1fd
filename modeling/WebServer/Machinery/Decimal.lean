import Mathlib

/-!
# Machinery/Decimal — numbers printed in decimal and read back

`print n` is the digits of `n` in ASCII, `read` the number that a text of digits says.
-/

namespace Decimal

/-- The digits of a number. -/
def print (n : ℕ) : List UInt8 := (toString n).toList.map Char.toUInt8

/-- `0` to `9`. -/
def IsDigit (c : UInt8) : Prop := 48 ≤ c ∧ c ≤ 57

instance (c : UInt8) : Decidable (IsDigit c) := inferInstanceAs (Decidable (_ ∧ _))

def value (s : List UInt8) : ℕ := s.foldl (fun n c => 10 * n + (c.toNat - 48)) 0

/-- The number that a text says, if it is digits and nothing else. -/
def read (s : List UInt8) : Option ℕ :=
  if s ≠ [] ∧ ∀ c ∈ s, IsDigit c then some (value s) else none

theorem print_eq (n : ℕ) : print n = (Nat.toDigits 10 n).map Char.toUInt8 := by
  rw [print, Nat.toString_eq_repr, Nat.toList_repr]

theorem length_print_le {n k : ℕ} (hk : 0 < k) (hn : n < 10 ^ k) : (print n).length ≤ k := by
  rw [print_eq, List.length_map]
  exact Nat.toDigits_length 10 n k hk hn

/-- A digit is one byte. -/
theorem toNat_of_isDigit {c : Char} (h : c.isDigit = true) :
    c.toUInt8.toNat = c.toNat ∧ 48 ≤ c.toNat ∧ c.toNat ≤ 57 := by
  obtain ⟨hge, hle⟩ : 48 ≤ c.toNat ∧ c.toNat ≤ 57 := by
    simpa [Char.isDigit, UInt32.le_iff_toNat_le] using h
  refine ⟨?_, hge, hle⟩
  rw [Char.toUInt8, UInt32.toNat_toUInt8]
  exact Nat.mod_eq_of_lt (Nat.lt_of_le_of_lt hle (by decide))

theorem isDigit_of_mem_print {n : ℕ} {c : UInt8} (hc : c ∈ print n) : IsDigit c := by
  rw [print_eq] at hc
  obtain ⟨d, hd, rfl⟩ := List.mem_map.mp hc
  obtain ⟨heq, hge, hle⟩ := toNat_of_isDigit (Nat.isDigit_of_mem_toDigits (by decide) le_rfl hd)
  rw [IsDigit, UInt8.le_iff_toNat_le, UInt8.le_iff_toNat_le, heq]
  exact ⟨hge, hle⟩

/-- The bytes of digits have the digits' value. -/
theorem value_map {s : List Char} (hs : ∀ c ∈ s, c.isDigit = true) :
    value (s.map Char.toUInt8) = Nat.ofDigitChars 10 s 0 := by
  rw [value, List.foldl_map, Nat.ofDigitChars_eq_foldl]
  refine List.foldl_ext _ _ _ fun n c hc => ?_
  rw [(toNat_of_isDigit (hs c hc)).1]
  rfl

theorem value_print (n : ℕ) : value (print n) = n := by
  rw [print_eq, value_map fun c hc => Nat.isDigit_of_mem_toDigits (by decide) le_rfl hc,
    Nat.ofDigitChars_ten_toDigits]

/-- Leading zeros say nothing. -/
theorem value_replicate (k : ℕ) (s : List UInt8) : value (List.replicate k 48 ++ s) = value s := by
  rw [value, List.foldl_append, value]
  congr 1
  induction k with
  | zero => rfl
  | succ k ih => exact ih

/-- **What is printed is read back.** -/
theorem read_print (n : ℕ) : read (print n) = some n := by
  have hne : print n ≠ [] := by
    rw [print_eq]
    simp [Nat.toDigits_ne_nil]
  rw [read, if_pos ⟨hne, fun c hc => isDigit_of_mem_print hc⟩, value_print]

end Decimal
