import WebServer.Machinery.Threads

/-!
# Machinery/CondVar — condition variables, and wake-ups that are not lost

A condition variable is given by what a thread's place means to it: the thread is away from it, is
parked on it, or has been notified and not yet taken the lock again.  A notification goes to any one
parked thread, or to all of them.

`Covers` is the counting invariant of a program that notifies once for each piece of work: as long
as a thread is parked, every piece of work left has a notified thread, or a notification that is
still to come.  Each step of such a program has its rule here.
-/

open Threads

/-- Where a thread stands to a condition variable. -/
inductive Wait where
  | away
  | parked
  | notified
  deriving DecidableEq, Repr

/-- A condition variable, by what each place means to it and where a notification leads. -/
structure CondVar (P : Type*) where
  wait : P → Wait
  wake : P → P
  wait_wake : ∀ a, wait a = .parked → wait (wake a) = .notified

namespace CondVar

variable {ι P : Type*}

section Model

variable (cv : CondVar P) (pc : ι → P)

/-- A notification goes to a parked thread; to nobody only if nobody is parked. -/
def Picks : Option ι → Prop
  | some i => cv.wait (pc i) = .parked
  | none => ∀ i, cv.wait (pc i) ≠ .parked

instance [Fintype ι] (target : Option ι) : Decidable (cv.Picks pc target) :=
  match target with
  | some _ => inferInstanceAs (Decidable (_ = _))
  | none => inferInstanceAs (Decidable (∀ _, _ ≠ _))

/-- `notify_one`, when it goes to `target`. -/
def notifyOne [DecidableEq ι] : Option ι → ι → P
  | some i => Function.update pc i (cv.wake (pc i))
  | none => pc

/-- `notify_all`. -/
def notifyAll (i : ι) : P := if cv.wait (pc i) = .parked then cv.wake (pc i) else pc i

def parked [Fintype ι] : ℕ := count pc fun a => cv.wait a = .parked

def notified [Fintype ι] : ℕ := count pc fun a => cv.wait a = .notified

/-- **No wake-up is lost**: with a thread parked, every piece of work left has a notified thread, or
one of the `pending` notifications. -/
def Covers [Fintype ι] (backlog pending : ℕ) : Prop :=
  0 < cv.parked pc → backlog ≤ cv.notified pc + pending

end Model

variable {cv cw : CondVar P} {pc : ι → P} {i : ι} {a : P} {b n : ℕ} {target : Option ι}

theorem not_parked_notifyAll (cv : CondVar P) (pc : ι → P) (i : ι) :
    cv.wait (cv.notifyAll pc i) ≠ .parked := by
  rw [notifyAll]
  split
  · rw [cv.wait_wake _ ‹_›]
    exact Wait.noConfusion
  · assumption

/-- A place that is no parking place leaves nobody parked. -/
theorem not_parked_update [DecidableEq ι] (h : ∀ i, cv.wait (pc i) ≠ .parked)
    (ha : cv.wait a ≠ .parked) (j : ι) : cv.wait (Function.update pc i a j) ≠ .parked :=
  update_forall (Q := fun a => cv.wait a ≠ .parked) h ha j

/-- With nobody parked, a notification goes to nobody. -/
theorem Picks.eq_none (ht : cv.Picks pc target) (h : ∀ i, cv.wait (pc i) ≠ .parked) :
    target = none := by
  cases target with
  | none => rfl
  | some i => exact absurd ht (h i)

/-- A notification always goes somewhere. -/
theorem exists_picks (cv : CondVar P) (pc : ι → P) : ∃ target, cv.Picks pc target := by
  by_cases h : ∃ i, cv.wait (pc i) = .parked
  · obtain ⟨i, hi⟩ := h
    exact ⟨some i, hi⟩
  · exact ⟨none, not_exists.mp h⟩

/-- A thread that is not parked does not see a notification. -/
theorem Picks.notifyOne_eq [DecidableEq ι] (ht : cv.Picks pc target)
    (hi : cv.wait (pc i) ≠ .parked) : cv.notifyOne pc target i = pc i := by
  cases target with
  | none => rfl
  | some j =>
    obtain rfl | hne := eq_or_ne i j
    · exact absurd ht hi
    · exact Function.update_of_ne hne _ _

/-- Nor one that goes to all. -/
theorem notifyAll_eq (hi : cv.wait (pc i) ≠ .parked) : cv.notifyAll pc i = pc i := if_neg hi

/-- What waking up keeps, a notification keeps for every thread. -/
theorem notifyOne_forall [DecidableEq ι] {Q : P → Prop} (hQ : ∀ a, Q a → Q (cv.wake a))
    (h : ∀ i, Q (pc i)) (i : ι) : Q (cv.notifyOne pc target i) := by
  cases target with
  | none => exact h i
  | some j => exact update_forall h (hQ _ (h j)) i

theorem notifyAll_forall {Q : P → Prop} (hQ : ∀ a, Q a → Q (cv.wake a)) (h : ∀ i, Q (pc i))
    (i : ι) : Q (cv.notifyAll pc i) := by
  rw [notifyAll]
  split
  · exact hQ _ (h i)
  · exact h i

section Congr

variable {β : Type*} {f : P → β} (hf : ∀ a, cv.wait a = .parked → f (cv.wake a) = f a)
include hf

/-- What does not tell a parked thread from a notified one does not see a notification. -/
theorem notifyOne_congr [DecidableEq ι] (ht : cv.Picks pc target) (i : ι) :
    f (cv.notifyOne pc target i) = f (pc i) := by
  cases target with
  | none => rfl
  | some j =>
    rw [notifyOne]
    obtain rfl | hi := eq_or_ne i j
    · rw [Function.update_self, hf _ ht]
    · rw [Function.update_of_ne hi]

theorem notifyAll_congr (i : ι) : f (cv.notifyAll pc i) = f (pc i) := by
  rw [notifyAll]
  split
  · exact hf _ ‹_›
  · rfl

end Congr

/-! ## Counting -/

section Count

variable [Fintype ι]

theorem parked_pos_iff : 0 < cv.parked pc ↔ ∃ i, cv.wait (pc i) = .parked := by
  simp only [parked, count_pos_iff, decide_eq_true_eq]

theorem parked_eq_zero_iff : cv.parked pc = 0 ↔ ∀ i, cv.wait (pc i) ≠ .parked := by
  simp only [parked, count_eq_zero_iff, decide_eq_false_iff_not, ne_eq]

variable [DecidableEq ι]

theorem parked_update (h : cv.wait a ≠ .parked) :
    cv.parked (Function.update pc i a) ≤ cv.parked pc := by
  have hcount := count_update pc i a fun a => cv.wait a = .parked
  simp only [h, decide_false, Bool.toNat_false] at hcount
  exact (Nat.le_add_right _ _).trans hcount.le

theorem notified_update (cv : CondVar P) (pc : ι → P) (i : ι) (a : P) :
    cv.notified pc ≤ cv.notified (Function.update pc i a) + 1 := by
  have hcount := count_update pc i a fun a => cv.wait a = .notified
  have hone := Bool.toNat_le (decide (cv.wait (pc i) = .notified))
  simp only [notified]
  omega

/-- A thread that was not notified leaves the count of those that are, or joins it. -/
theorem notified_update_of_ne (h : cv.wait (pc i) ≠ .notified) :
    cv.notified (Function.update pc i a)
      = cv.notified pc + (decide (cv.wait a = .notified)).toNat := by
  have hcount := count_update pc i a fun a => cv.wait a = .notified
  rwa [decide_eq_false h, Bool.toNat_false, Nat.add_zero] at hcount

end Count

/-! ## The rules -/

namespace Covers

variable [Fintype ι]

/-- Nothing is left to do. -/
theorem zero : cv.Covers pc 0 n := fun _ => Nat.zero_le _

/-- Nobody is parked. -/
theorem of_parked (h : ∀ i, cv.wait (pc i) ≠ .parked) : cv.Covers pc b n := fun hpos =>
  absurd hpos (by rw [parked_eq_zero_iff.mpr h]; exact lt_irrefl 0)

/-- A notification to all threads of another condition variable. -/
theorem stay_notifyAll (h : cv.Covers pc b n)
    (hw : ∀ a, cw.wait a = .parked → cv.wait (cw.wake a) = cv.wait a) :
    cv.Covers (cw.notifyAll pc) b n := by
  have hcount : ∀ w : Wait, count (cw.notifyAll pc) (fun a => decide (cv.wait a = w))
      = count pc fun a => decide (cv.wait a = w) := fun w =>
    count_congr fun i => notifyAll_congr (f := fun a => decide (cv.wait a = w))
      (fun a ha => by rw [hw a ha]) i
  rw [Covers, parked, notified, hcount, hcount]
  exact h

/-- A piece of work, with a notification to come. -/
theorem add (h : cv.Covers pc b n) : cv.Covers pc (b + 1) (n + 1) := fun hpos => by
  have := h hpos
  omega

variable [DecidableEq ι]

/-- A step that the condition variable does not see. -/
theorem stay (h : cv.Covers pc b n) (hw : cv.wait a = cv.wait (pc i)) :
    cv.Covers (Function.update pc i a) b n := by
  rw [Covers, parked, notified, count_update_of_eq (by rw [hw]), count_update_of_eq (by rw [hw])]
  exact h

/-- **A thread takes a piece of work**, notified or not. -/
theorem take (h : cv.Covers pc (b + 1) n) (hw : cv.wait a ≠ .parked) :
    cv.Covers (Function.update pc i a) b n := fun hpos => by
  have := h (hpos.trans_le (parked_update hw))
  have := notified_update cv pc i a
  omega

/-- **The wait of a thread ends without a notification.** -/
theorem leave (h : cv.Covers pc b n) (hi : cv.wait (pc i) ≠ .notified)
    (hw : cv.wait a ≠ .parked) : cv.Covers (Function.update pc i a) b n := fun hpos => by
  have := h (hpos.trans_le (parked_update hw))
  rw [notified_update_of_ne hi]
  omega

/-- **A notification to one thread**, for a piece of work that waits for it. -/
theorem notifyOne (h : cv.Covers pc b (n + 1)) (ht : cv.Picks pc target) :
    cv.Covers (cv.notifyOne pc target) b n := by
  cases target with
  | none => exact of_parked ht
  | some i =>
    intro hpos
    have hi : cv.wait (pc i) = .parked := ht
    have hwake := cv.wait_wake _ hi
    have := h (hpos.trans_le (parked_update (by rw [hwake]; exact Wait.noConfusion)))
    rw [CondVar.notifyOne, notified_update_of_ne (by rw [hi]; exact Wait.noConfusion),
      decide_eq_true hwake, Bool.toNat_true]
    omega

/-- A notification to one thread, for nothing. -/
theorem spare (h : cv.Covers pc b n) (ht : cv.Picks pc target) :
    cv.Covers (cv.notifyOne pc target) b n :=
  notifyOne (fun hpos => (h hpos).trans (Nat.le_succ _)) ht

/-- A notification on another condition variable. -/
theorem stay_notifyOne (h : cv.Covers pc b n)
    (hw : ∀ a, cw.wait a = .parked → cv.wait (cw.wake a) = cv.wait a) (ht : cw.Picks pc target) :
    cv.Covers (cw.notifyOne pc target) b n := by
  cases target with
  | none => exact h
  | some i => exact h.stay (hw _ ht)

end Covers

end CondVar
