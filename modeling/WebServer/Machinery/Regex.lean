import Mathlib

/-!
# Machinery/Regex — whole-string matching of flat patterns, by backtracking

A pattern is a sequence of pieces, each a class of symbols taken once, at most once, or any number
of times.  The last two are greedy: `Piece.takes` lists what a piece may take in the order a
backtracking matcher tries it, the longest first, and `fullMatch` returns the groups of the first
choice that lets the rest of the pattern take the rest of the string.

Backtracking never helps a greedy run whose shorter choices leave a symbol the rest cannot start
with; `fullMatch_many` reads such a pattern off `takeWhile` and `dropWhile`.
-/

namespace Regex

variable {α : Type*} {p : α → Bool}

/-- One symbol of a class, one or none, or any number of them. -/
inductive Piece (α : Type*) where
  | one (p : α → Bool)
  | opt (p : α → Bool)
  | many (p : α → Bool)

/-- A piece, and whether what it takes is a group of the match. -/
structure Item (α : Type*) where
  piece : Piece α
  group : Bool

/-- A piece whose text is not kept. -/
def skip (piece : Piece α) : Item α := ⟨piece, false⟩

/-- A piece whose text is a group. -/
def group (piece : Piece α) : Item α := ⟨piece, true⟩

/-- The ways to take symbols of `p` from the front, the longest first. -/
def takesMany (p : α → Bool) : List α → List (List α × List α)
  | [] => [([], [])]
  | a :: s => (if p a then (takesMany p s).map fun u => (a :: u.1, u.2) else []) ++ [([], a :: s)]

/-- What a piece may take from the front of a string, and what it leaves, in the order tried. -/
def Piece.takes : Piece α → List α → List (List α × List α)
  | .one _, [] => []
  | .one p, a :: s => if p a then [([a], s)] else []
  | .opt _, [] => [([], [])]
  | .opt p, a :: s => (if p a then [([a], s)] else []) ++ [([], a :: s)]
  | .many p, s => takesMany p s

/-- The groups of the first way in which the items take the whole string. -/
def fullMatch : List (Item α) → List α → Option (List (List α))
  | [], s => if s.isEmpty then some [] else none
  | it :: items, s =>
    (it.piece.takes s).findSome? fun u =>
      (fullMatch items u.2).map fun gs => if it.group then u.1 :: gs else gs

@[simp] theorem fullMatch_nil_cons (a : α) (s : List α) : fullMatch [] (a :: s) = none := rfl

@[simp] theorem fullMatch_one_cons (a : α) (s : List α) (items : List (Item α)) :
    fullMatch (skip (.one p) :: items) (a :: s) = if p a then fullMatch items s else none := by
  by_cases h : p a <;> simp [fullMatch, skip, Piece.takes, h]

theorem fullMatch_opt_cons (a : α) (s : List α) (items : List (Item α)) :
    fullMatch (skip (.opt p) :: items) (a :: s)
      = if p a then (fullMatch items s).or (fullMatch items (a :: s))
        else fullMatch items (a :: s) := by
  by_cases h : p a <;> cases hs : fullMatch items s <;>
    simp [fullMatch, skip, Piece.takes, h, hs]

/-- The first answer of a greedy run is at its longest choice, when the shorter ones have none. -/
theorem findSome?_takesMany {β : Type*} (s : List α) : ∀ {f : List α × List α → Option β},
    (∀ u a v, p a → f (u, a :: v) = none) →
      (takesMany p s).findSome? f = f (s.takeWhile p, s.dropWhile p) := by
  induction s with
  | nil => intro f _; simp [takesMany]
  | cons a s ih =>
    intro f hf
    by_cases h : p a
    · have hrec : ((takesMany p s).map fun u => (a :: u.1, u.2)).findSome? f
          = f (a :: s.takeWhile p, s.dropWhile p) := by
        rw [List.findSome?_map]
        exact ih fun u b v hb => hf (a :: u) b v hb
      have hlast : f ([], a :: s) = none := hf [] a s h
      simp [takesMany, h, List.findSome?_append, hrec, hlast]
    · simp [takesMany, h]

/-- **A greedy group that the rest of the pattern cannot start in takes all it can.** -/
theorem fullMatch_many {items : List (Item α)}
    (h : ∀ a s, p a → fullMatch items (a :: s) = none) (s : List α) :
    fullMatch (group (.many p) :: items) s
      = (fullMatch items (s.dropWhile p)).map (s.takeWhile p :: ·) :=
  findSome?_takesMany s fun u a v ha => by rw [h a v ha]; rfl

/-- A last greedy group matches exactly the strings of its class. -/
theorem fullMatch_many_last (s : List α) :
    fullMatch [group (.many p)] s = if s.all p then some [s] else none := by
  rw [fullMatch_many fun a s _ => fullMatch_nil_cons a s]
  by_cases h : s.all p
  · have hall : ∀ a ∈ s, p a = true := List.all_eq_true.mp h
    rw [if_pos h, List.dropWhile_eq_nil_iff.mpr hall, List.takeWhile_eq_self_iff.mpr hall]
    rfl
  · rw [if_neg h]
    rcases hd : s.dropWhile p with _ | ⟨a, t⟩
    · exact absurd (List.all_eq_true.mpr (List.dropWhile_eq_nil_iff.mp hd)) h
    · rfl

/-- A greedy group up to the first symbol outside its class. -/
theorem fullMatch_many_append {items : List (Item α)}
    (h : ∀ a s, p a → fullMatch items (a :: s) = none) {u : List α} (hu : ∀ a ∈ u, p a) {a : α}
    (ha : ¬ p a) (s : List α) :
    fullMatch (group (.many p) :: items) (u ++ a :: s)
      = (fullMatch items (a :: s)).map (u :: ·) := by
  rw [fullMatch_many h, List.takeWhile_append_of_pos hu, List.dropWhile_append_of_pos hu,
    List.takeWhile_cons_of_neg ha, List.dropWhile_cons_of_neg ha, List.append_nil]

end Regex
