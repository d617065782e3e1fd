import Mathlib

/-!
# Machinery/Threads — how many threads stand where

A program of many threads is read through the place that each has come to.  A step takes one thread
to another place, which is a `Function.update`; `count_update` is what it does to any count.
-/

namespace Threads

open Finset

variable {ι P : Type*} [Fintype ι] {pc : ι → P} {p q : P → Bool} {i : ι} {a : P}

/-- How many threads stand in a place of `p`. -/
def count (pc : ι → P) (p : P → Bool) : ℕ := #{i | p (pc i)}

theorem count_pos_iff : 0 < count pc p ↔ ∃ i, p (pc i) = true := by
  rw [count, card_pos]
  constructor
  · rintro ⟨i, hi⟩
    exact ⟨i, (mem_filter.mp hi).2⟩
  · rintro ⟨i, hi⟩
    exact ⟨i, mem_filter.mpr ⟨mem_univ i, hi⟩⟩

theorem count_eq_zero_iff : count pc p = 0 ↔ ∀ i, p (pc i) = false := by
  rw [← Nat.le_zero, ← not_lt, count_pos_iff, not_exists]
  simp

/-- **Exactly one thread** stands in a place that one thread is counted in. -/
theorem count_eq_one_iff : count pc p = 1 ↔ ∃! i, p (pc i) = true := by
  rw [count, card_eq_one]
  constructor
  · rintro ⟨i, hi⟩
    have hmem : ∀ j, p (pc j) = true ↔ j = i := fun j => by
      simpa using Finset.ext_iff.mp hi j
    exact ⟨i, (hmem i).mpr rfl, fun j hj => (hmem j).mp hj⟩
  · rintro ⟨i, hi, huniq⟩
    refine ⟨i, Finset.ext fun j => ?_⟩
    rw [mem_filter, mem_singleton]
    exact ⟨fun hj => huniq j hj.2, fun hj => ⟨mem_univ j, hj ▸ hi⟩⟩

theorem count_congr {pc' : ι → P} (h : ∀ i, p (pc' i) = p (pc i)) : count pc' p = count pc p := by
  simp only [count, h]

/-- What holds of every place holds after a step to one of which it holds. -/
theorem update_forall {ι : Type*} [DecidableEq ι] {pc : ι → P} {i : ι} {Q : P → Prop}
    (h : ∀ j, Q (pc j)) (ha : Q a) (j : ι) : Q (Function.update pc i a j) := by
  obtain rfl | hj := eq_or_ne j i
  · rwa [Function.update_self]
  · rw [Function.update_of_ne hj]
    exact h j

variable [DecidableEq ι]

/-- **A step of one thread** takes it out of the count of its old place and into that of its new
one. -/
theorem count_update (pc : ι → P) (i : ι) (a : P) (p : P → Bool) :
    count (Function.update pc i a) p + (p (pc i)).toNat = count pc p + (p a).toNat := by
  have hsum : ∀ f : ι → P, count f p = (p (f i)).toNat + ∑ j ∈ univ.erase i, (p (f j)).toNat := by
    intro f
    rw [add_sum_erase _ (fun j => (p (f j)).toNat) (mem_univ i), count, card_filter]
    exact sum_congr rfl fun j _ => by cases p (f j) <;> rfl
  rw [hsum, hsum pc, Function.update_self]
  have hrest : ∑ j ∈ univ.erase i, (p (Function.update pc i a j)).toNat
      = ∑ j ∈ univ.erase i, (p (pc j)).toNat :=
    sum_congr rfl fun j hj => by rw [Function.update_of_ne (ne_of_mem_erase hj)]
  omega

/-- The same for what the places weigh. -/
theorem sum_update (pc : ι → P) (i : ι) (a : P) (w : P → ℕ) :
    ∑ j, w (Function.update pc i a j) + w (pc i) = ∑ j, w (pc j) + w a := by
  rw [← add_sum_erase _ _ (mem_univ i), ← add_sum_erase _ (fun j => w (pc j)) (mem_univ i),
    Function.update_self]
  have hrest : ∑ j ∈ univ.erase i, w (Function.update pc i a j) = ∑ j ∈ univ.erase i, w (pc j) :=
    sum_congr rfl fun j hj => by rw [Function.update_of_ne (ne_of_mem_erase hj)]
  omega

/-- A step between two places that count alike. -/
theorem count_update_of_eq (h : p a = p (pc i)) :
    count (Function.update pc i a) p = count pc p := by
  have := count_update pc i a p
  rw [h] at this
  omega

end Threads
