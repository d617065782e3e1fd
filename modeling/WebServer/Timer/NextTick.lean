import WebServer.Timer.Update

/-!
# Timer/NextTick — what `getNextTick` returns when nothing was due

Behind the tick the clock is read once more, so the deadline of the root may have passed by then.
The time that remains is negative in that case, but `res` is a `size_t`: the comparison with 0 never
applies, and the low half of the word is what is returned.
-/

namespace WebServer

namespace Timer

variable {κ : Type} {t : Timer κ} {clock : ℕ → ℤ} {node : TimerNode κ}

/-- The timeout that `epoll_wait` should be given at `now`: -1 if no timer is pending, and otherwise
the whole milliseconds to the first deadline, or 0 if it has passed. -/
def remaining (t : Timer κ) (now : ℤ) : ℤ :=
  match t.heap with
  | [] => -1
  | node :: _ => max 0 (millis (node.expire - now))

/-- Time that passes does not leave more of it. -/
theorem millis_mono {a b : ℤ} (h : a ≤ b) : millis a ≤ millis b :=
  Int.tdiv_le_tdiv (by norm_num) h

theorem remaining_empty (ht : t.heap = []) (now : ℤ) : t.remaining now = -1 := by
  rw [remaining, ht]

theorem remaining_root (hroot : t.heap[0]? = some node) (now : ℤ) :
    t.remaining now = max 0 (millis (node.expire - now)) := by
  rw [remaining]
  cases ht : t.heap with
  | nil =>
    rw [ht] at hroot
    cases hroot
  | cons first rest =>
    rw [ht] at hroot
    obtain rfl := Option.some.inj hroot
    rfl

/-- An empty heap is answered with -1, and the clock is not read. -/
theorem getNextTick_empty (ht : t.heap = []) : t.getNextTick clock = .ok (-1, [], t) := by
  have htick : t.tick clock = .ok (t, []) := by
    refine Loop.run_exit ?_ _
    rw [tickPass, if_pos ht, pure_eq_ok]
  rw [getNextTick, htick, ok_bind]
  simp only [ht]
  rfl

/-- **What is returned is the low half** of the milliseconds that remain at the second reading. -/
theorem getNextTick_root (hroot : t.heap[0]? = some node) (hdue : ¬ Due node.expire (clock 0)) :
    t.getNextTick clock = .ok (Word.int32 (millis (node.expire - clock 1)), [], t) := by
  rw [getNextTick, tick_not_due hroot hdue, ok_bind]
  cases ht : t.heap with
  | nil => exact absurd ht (heap_ne_nil hroot)
  | cons first rest =>
    rw [ht] at hroot
    obtain rfl := Option.some.inj hroot
    have hword : ¬ millis (first.expire - clock 1) % 2 ^ 64 < 0 :=
      not_lt.mpr (Int.emod_nonneg _ (by norm_num))
    simp only [ht, List.length_nil, zero_add, if_neg hword, Word.int32_emod, pure_eq_ok]

/-- **`getNextTick` returns what remains if and only if, by the second reading, the root's deadline
has not passed by a whole millisecond**, or it has by a multiple of `2 ^ 32` of them.  Of the nodes
only the root is asked to lie ahead, by less than `2 ^ 31` milliseconds. -/
theorem getNextTick_remaining_iff
    (hdue : ∀ node : TimerNode κ, t.heap[0]? = some node → ¬ Due node.expire (clock 0))
    (hahead : ∀ node : TimerNode κ, t.heap[0]? = some node →
      millis (node.expire - clock 0) < 2 ^ 31)
    (hclock : clock 0 ≤ clock 1) :
    t.getNextTick clock = .ok (t.remaining (clock 1), [], t) ↔
      ∀ node : TimerNode κ, t.heap[0]? = some node → 0 ≤ millis (node.expire - clock 1) ∨
        2 ^ 32 ∣ millis (node.expire - clock 1) := by
  cases hroot : t.heap[0]? with
  | none =>
    have ht : t.heap = [] := List.length_eq_zero_iff.mp
      (Nat.le_zero.mp (List.getElem?_eq_none_iff.mp hroot))
    rw [remaining_empty ht]
    exact iff_of_true (getNextTick_empty ht) fun node hnode => by cases hnode
  | some root =>
    have hlate : millis (root.expire - clock 1) < 2 ^ 31 :=
      (millis_mono (by omega)).trans_lt (hahead root hroot)
    rw [getNextTick_root hroot (hdue root hroot), remaining_root hroot, Except.ok.injEq,
      Prod.mk.injEq, and_iff_left rfl, Word.int32_eq_max_iff hlate]
    constructor
    · rintro h node hnode
      obtain rfl := Option.some.inj hnode
      exact h
    · exact fun h => h root rfl

/-- A clock that reads 5 ms, and `step` nanoseconds more at every reading. -/
def ticking (step : ℤ) (n : ℕ) : ℤ := 5000000 + step * n

/-- A deadline at 12 ms, and readings at 5 ms and 7 ms. -/
theorem getNextTick_remaining_iff_ahead :
    (two 12000000 20000000).getNextTick (ticking 2000000) = .ok
      ((two 12000000 20000000).remaining (ticking 2000000 1), [], two 12000000 20000000) := by
  have hroot : ∀ node, (two 12000000 20000000).heap[0]? = some node → node.expire = 12000000 := by
    rintro node hnode
    rw [← Option.some.inj hnode]
  have hdue : ¬ Due 12000000 (ticking 2000000 0) := by decide
  refine (getNextTick_remaining_iff (fun node hnode => (hroot node hnode).symm ▸ hdue)
    (fun node hnode => ?_) (by decide)).mpr fun node hnode => ?_
  · rw [hroot node hnode]
    decide
  · rw [hroot node hnode]
    decide

/-- **The deadline passes between the two readings**, by 1 ms: `epoll_wait` is told to wait forever,
with two timers pending. -/
theorem not_getNextTick_remaining_late :
    (∀ node ∈ (two 12000000 20000000).heap, ¬ Due node.expire (ticking 8000000 0)) ∧
    (two 12000000 20000000).remaining (ticking 8000000 1) = 0 ∧
    (two 12000000 20000000).getNextTick (ticking 8000000) = .ok (-1, [], two 12000000 20000000) ∧
    (two 12000000 20000000).getNextTick (ticking 8000000) ≠ .ok
      ((two 12000000 20000000).remaining (ticking 8000000 1), [], two 12000000 20000000) := by
  have hroot : (two 12000000 20000000).heap[0]? = some ⟨0, 12000000, none⟩ := rfl
  have hlate : (two 12000000 20000000).getNextTick (ticking 8000000)
      = .ok (-1, [], two 12000000 20000000) := getNextTick_root hroot (by decide)
  refine ⟨by decide, rfl, hlate, fun hzero => ?_⟩
  rw [hlate, Except.ok.injEq, Prod.mk.injEq] at hzero
  exact absurd hzero.1 (by decide)

end Timer

end WebServer
