import Mathlib

/-!
# Machinery/Fifo — a queue that remembers its history

Everything written so far, and how much of it has been retrieved; the content is the difference.
-/

structure Fifo (α : Type*) where
  written : List α
  retrieved : ℕ
  retrieved_le : retrieved ≤ written.length

namespace Fifo

variable {α : Type*} (q : Fifo α)

def empty : Fifo α := ⟨[], 0, Nat.le_refl 0⟩

/-- What is in the queue: all that was written, less what was retrieved. -/
def content : List α := q.written.drop q.retrieved

/-- The queue with `s` written behind its content. -/
def push (s : List α) : Fifo α :=
  ⟨q.written ++ s, q.retrieved, by have := q.retrieved_le; simp only [List.length_append]; omega⟩

/-- The queue with `n` more retrieved, or all there is. -/
def pop (n : ℕ) : Fifo α :=
  ⟨q.written, min (q.retrieved + n) q.written.length, Nat.min_le_right _ _⟩

@[simp] theorem content_push (s : List α) : (q.push s).content = q.content ++ s :=
  List.drop_append_of_le_length q.retrieved_le

@[simp] theorem content_pop (n : ℕ) : (q.pop n).content = q.content.drop n := by
  simp only [content, pop, List.drop_drop]
  by_cases h : q.retrieved + n ≤ q.written.length
  · rw [Nat.min_eq_left h]
  · rw [Nat.min_eq_right (by omega), List.drop_length, List.drop_eq_nil_of_le (by omega)]

end Fifo
