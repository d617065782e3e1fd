import Mathlib

/-!
# Machinery/Ledger — what is taken and given back

A ledger is a list of things taken and given back, in the order of time, and `held` is what is taken
at its end.  `InTurn` is a ledger in which nothing is taken before what was taken last is given
back.
-/

/-- A line of a ledger. -/
inductive Entry (α : Type*) where
  | take (a : α)
  | give (a : α)
  deriving DecidableEq, Repr

namespace Ledger

variable {α : Type*} {l pre : List (Entry α)} {live : Option α}

/-- **One at a time**: what is given back is what was taken last, and nothing was taken in between.
`live` is what is still taken. -/
inductive InTurn : List (Entry α) → Option α → Prop
  | nil : InTurn [] none
  | take {l : List (Entry α)} (h : InTurn l none) (a : α) : InTurn (l ++ [.take a]) (some a)
  | give {l : List (Entry α)} {a : α} (h : InTurn l (some a)) : InTurn (l ++ [.give a]) none

/-- A ledger that goes in turn has done so from its beginning. -/
theorem InTurn.of_prefix (h : InTurn l live) (hpre : pre <+: l) : ∃ live', InTurn pre live' := by
  induction h with
  | nil =>
    obtain rfl := List.prefix_nil.mp hpre
    exact ⟨none, .nil⟩
  | take h a ih =>
    obtain rfl | hpre := List.prefix_concat_iff.mp hpre
    · exact ⟨some a, .take h a⟩
    · exact ih hpre
  | give h ih =>
    obtain rfl | hpre := List.prefix_concat_iff.mp hpre
    · exact ⟨none, .give h⟩
    · exact ih hpre

variable [DecidableEq α]

/-- What is taken and not given back, the last first. -/
def held (l : List (Entry α)) : List α :=
  l.foldl (fun held e =>
    match e with
    | .take a => a :: held
    | .give a => held.erase a) []

@[simp] theorem held_take (l : List (Entry α)) (a : α) : held (l ++ [.take a]) = a :: held l := by
  rw [held, List.foldl_append]
  rfl

@[simp] theorem held_give (l : List (Entry α)) (a : α) :
    held (l ++ [.give a]) = (held l).erase a := by
  rw [held, List.foldl_append]
  rfl

/-- What is given back at once leaves no trace. -/
theorem held_turn (l : List (Entry α)) (a : α) : held (l ++ [.take a, .give a]) = held l := by
  rw [List.append_cons, held_give, held_take, List.erase_cons_head]

namespace InTurn

theorem held_eq (h : InTurn l live) : held l = live.toList := by
  induction h with
  | nil => rfl
  | take h a ih => rw [held_take, ih, Option.toList_none, Option.toList_some]
  | give h ih => rw [held_give, ih, Option.toList_some, List.erase_cons_head, Option.toList_none]

/-- **At no time is more than one thing held.** -/
theorem length_held_le (h : InTurn l live) (hpre : pre <+: l) : (held pre).length ≤ 1 := by
  obtain ⟨live', h'⟩ := h.of_prefix hpre
  rw [h'.held_eq]
  cases live' <;> simp

/-- **Everything has been given back as often as it was taken**, but for what is still taken. -/
theorem count_take (h : InTurn l live) (a : α) :
    l.count (.take a) = l.count (.give a) + live.toList.count a := by
  induction h with
  | nil => rfl
  | take h b ih =>
    rw [List.count_append, List.count_append, ih]
    by_cases hb : b = a <;> simp [hb]
  | @give l b h ih =>
    rw [List.count_append, List.count_append, ih]
    by_cases hb : b = a <;> simp [hb]

end InTurn

end Ledger
