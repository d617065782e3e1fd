import Mathlib

/-!
# Machinery/Span — stretches of memory, and gather lists

A `Span` is a stretch of one block of memory.  A gather list describes the cells of its spans, one
span after another; `consume n` is what it becomes once its first `n` cells have been taken, and
`gather_consume` says that it then describes the rest.
-/

/-- `len` cells of a block, from `offset` on. -/
structure Span (β : Type*) where
  block : β
  offset : ℕ
  len : ℕ
  deriving DecidableEq, Repr

namespace Span

variable {α β : Type*} {mem : β → List α} {s : Span β} {l : List (Span β)}

/-- The span lies inside its block, or is empty. -/
def Within (mem : β → List α) (s : Span β) : Prop :=
  s.len = 0 ∨ s.offset + s.len ≤ (mem s.block).length

instance (mem : β → List α) (s : Span β) : Decidable (s.Within mem) :=
  inferInstanceAs (Decidable (s.len = 0 ∨ s.offset + s.len ≤ (mem s.block).length))

/-- The cells of a span. -/
def read (mem : β → List α) (s : Span β) : List α := ((mem s.block).drop s.offset).take s.len

/-- The span without its first `n` cells. -/
def drop (n : ℕ) (s : Span β) : Span β := { s with offset := s.offset + n, len := s.len - n }

theorem read_drop (mem : β → List α) (n : ℕ) (s : Span β) :
    (s.drop n).read mem = (s.read mem).drop n := by
  simp only [read, drop, List.drop_take, List.drop_drop]

theorem read_of_len_eq_zero (h : s.len = 0) : s.read mem = [] := by
  rw [read, h, List.take_zero]

theorem Within.length_read (h : s.Within mem) : (s.read mem).length = s.len := by
  simp only [read, List.length_take, List.length_drop]
  rcases h with h | h <;> omega

theorem Within.drop (h : s.Within mem) (n : ℕ) : (s.drop n).Within mem := by
  simp only [Within, Span.drop] at h ⊢
  omega

/-- A span reads the same in two memories that agree on its block. -/
theorem read_congr {mem' : β → List α} (h : s.len = 0 ∨ mem s.block = mem' s.block) :
    s.read mem = s.read mem' := by
  rcases h with h | h
  · rw [read_of_len_eq_zero h, read_of_len_eq_zero h]
  · rw [read, h, read]

/-! ## Gather lists -/

/-- The cells a gather list describes. -/
def gather (mem : β → List α) (l : List (Span β)) : List α := l.flatMap (read mem)

/-- How many cells a gather list asks for. -/
def total (l : List (Span β)) : ℕ := (l.map len).sum

/-- The gather list without its first `n` cells. -/
def consume : ℕ → List (Span β) → List (Span β)
  | _, [] => []
  | n, s :: l => s.drop n :: consume (n - s.len) l

@[simp] theorem gather_nil : gather mem [] = [] := rfl

@[simp] theorem gather_cons : gather mem (s :: l) = s.read mem ++ gather mem l := rfl

@[simp] theorem total_nil : total ([] : List (Span β)) = 0 := rfl

@[simp] theorem total_cons : total (s :: l) = s.len + total l := rfl

theorem length_gather (h : ∀ s ∈ l, s.Within mem) : (gather mem l).length = total l := by
  induction l with
  | nil => rfl
  | cons s l ih =>
    rw [gather_cons, List.length_append, (h s List.mem_cons_self).length_read,
      ih fun s hs => h s (List.mem_cons_of_mem _ hs), total_cons]

/-- **What is left of a gather list describes what is left of its cells.** -/
theorem gather_consume (h : ∀ s ∈ l, s.Within mem) (n : ℕ) :
    gather mem (consume n l) = (gather mem l).drop n := by
  induction l generalizing n with
  | nil => simp [consume]
  | cons s l ih =>
    rw [consume, gather_cons, ih (fun s hs => h s (List.mem_cons_of_mem _ hs)), read_drop,
      gather_cons, List.drop_append, (h s List.mem_cons_self).length_read]

end Span
