import Mathlib

/-!
# Machinery/Walk — walks in a tree of names

A walk goes by moves to the parent or to a child, and its place is the list of names that lead there
from the root, the last one first.  `stays_iff` says when a walk never leaves the place it started
from: it has never gone up more often than down.
-/

/-- A move in a tree of names; the root is its own parent. -/
inductive Move (α : Type*) where
  | stay
  | up
  | down (a : α)
  deriving DecidableEq, Repr

namespace Move

variable {α : Type*} {m : Move α} {ms : List (Move α)} {place : List α}

def on : Move α → List α → List α
  | .stay, place => place
  | .up, place => place.tail
  | .down a, place => a :: place

def isUp : Move α → Bool
  | .up => true
  | _ => false

def isDown : Move α → Bool
  | .down _ => true
  | _ => false

/-- Where a walk ends. -/
def walk (place : List α) (ms : List (Move α)) : List α :=
  ms.foldl (fun place m => m.on place) place

def ups (ms : List (Move α)) : ℕ := ms.countP isUp

def downs (ms : List (Move α)) : ℕ := ms.countP isDown

/-- At no time has the walk gone up more often than down. -/
def Level (ms : List (Move α)) : Prop := ∀ pre, pre <+: ms → ups pre ≤ downs pre

instance (ms : List (Move α)) : Decidable (Level ms) :=
  decidable_of_iff (∀ pre ∈ ms.inits, ups pre ≤ downs pre) (by simp only [List.mem_inits]; rfl)

theorem level_down (a : α) : Level [.down a] := by
  intro pre hpre
  obtain rfl | rfl : pre = [] ∨ pre = [.down a] := by
    simpa [List.prefix_cons_iff] using hpre
  · exact le_rfl
  · exact Nat.zero_le _

/-- The walk stays at `place` and below. -/
def Stays (place : List α) (ms : List (Move α)) : Prop :=
  ∀ pre, pre <+: ms → place <:+ walk place pre

theorem walk_append (place : List α) (ms ns : List (Move α)) :
    walk place (ms ++ ns) = walk (walk place ms) ns := List.foldl_append

theorem walk_concat (place : List α) (ms : List (Move α)) (m : Move α) :
    walk place (ms ++ [m]) = m.on (walk place ms) := walk_append place ms [m]

/-- What holds of all initial parts holds of those of the walk but for its last move. -/
theorem forall_prefix_concat {P : List (Move α) → Prop} :
    (∀ pre, pre <+: ms ++ [m] → P pre) ↔ (∀ pre, pre <+: ms → P pre) ∧ P (ms ++ [m]) := by
  simp only [List.prefix_concat_iff]
  exact ⟨fun h => ⟨fun pre hpre => h pre (.inr hpre), h _ (.inl rfl)⟩,
    fun h pre hpre => hpre.elim (fun heq => heq ▸ h.2) (h.1 pre)⟩

/-- **A level walk** has, above where it started, as many names as it went down more often than
up. -/
theorem Level.walk_eq (h : Level ms) (place : List α) :
    ∃ names, walk place ms = names ++ place ∧ names.length + ups ms = downs ms := by
  induction ms using List.reverseRecOn with
  | nil => exact ⟨[], rfl, rfl⟩
  | append_singleton ms m ih =>
    obtain ⟨hms, hlast⟩ := forall_prefix_concat.mp h
    obtain ⟨names, hwalk, hlength⟩ := ih hms
    rw [walk_concat, hwalk]
    simp only [ups, downs, List.countP_append, List.countP_singleton] at hlast hlength ⊢
    cases m with
    | stay => exact ⟨names, rfl, by simpa [isUp, isDown] using hlength⟩
    | down a =>
      refine ⟨a :: names, rfl, ?_⟩
      simp only [isUp, isDown, List.length_cons, if_true, Bool.false_eq_true, if_false]
      omega
    | up =>
      simp only [isUp, isDown, if_true, Bool.false_eq_true, if_false] at hlast ⊢
      cases names with
      | nil =>
        rw [List.length_nil] at hlength
        omega
      | cons a names =>
        refine ⟨names, rfl, ?_⟩
        rw [List.length_cons] at hlength
        omega

/-- **A walk never leaves where it started if and only if it is level.** -/
theorem stays_iff (hplace : place ≠ []) : Stays place ms ↔ Level ms := by
  refine ⟨fun h => ?_, fun h pre hpre => ?_⟩
  · induction ms using List.reverseRecOn with
    | nil =>
      intro pre hpre
      rw [List.prefix_nil.mp hpre]
      exact le_rfl
    | append_singleton ms m ih =>
      obtain ⟨hms, hlast⟩ := forall_prefix_concat.mp h
      refine forall_prefix_concat.mpr ⟨ih hms, ?_⟩
      obtain ⟨names, hwalk, hlength⟩ := (ih hms).walk_eq place
      rw [walk_concat, hwalk] at hlast
      simp only [ups, downs, List.countP_append, List.countP_singleton] at hlength ⊢
      cases m with
      | stay | down =>
        simp only [isUp, isDown, if_true, Bool.false_eq_true, if_false]
        omega
      | up =>
        simp only [isUp, isDown, if_true, Bool.false_eq_true, if_false]
        cases names with
        | nil =>
          -- Its last move goes up from where it started.
          have hle := hlast.length_le
          have hpos := List.length_pos_of_ne_nil hplace
          rw [on, List.nil_append, List.length_tail] at hle
          omega
        | cons a names =>
          rw [List.length_cons] at hlength
          omega
  · obtain ⟨names, hwalk, -⟩ := Level.walk_eq (fun p hp => h p (hp.trans hpre)) place
    exact ⟨names, hwalk.symm⟩

end Move
