import Mathlib

/-!
# Machinery/Lines — cutting a list at a two-symbol mark

`split x y s` cuts `s` at the leftmost marks `x y`: the lines that a mark ends, and what stands
after the last mark.  `search` is the index of the leftmost occurrence of a pattern, the length of
the list when there is none.  `of_split_nil` and `of_split_cons` say that searching and splitting
see the same lines; `join_append` puts the lines back together.
-/

namespace Lines

variable {α : Type*} {x y : α}

/-- Lines with their marks put back. -/
def join (x y : α) (ls : List (List α)) : List α := ls.flatMap (· ++ [x, y])

@[simp] theorem join_nil : join x y ([] : List (List α)) = [] := rfl

@[simp] theorem join_cons (l : List α) (ls : List (List α)) :
    join x y (l :: ls) = l ++ x :: y :: join x y ls := by simp [join]

@[simp] theorem join_append (ls ls' : List (List α)) :
    join x y (ls ++ ls') = join x y ls ++ join x y ls' := by simp [join]

variable [DecidableEq α]

/-- The index at which `pat` first occurs in a list, or the length of the list. -/
def search (pat : List α) : List α → ℕ
  | [] => 0
  | a :: s => if pat <+: a :: s then 0 else search pat s + 1

/-- The lines of a list, cut at the leftmost marks `x y`, and the unmarked rest. -/
def split (x y : α) : List α → List (List α) × List α
  | [] => ([], [])
  | [a] => ([], [a])
  | a :: b :: s =>
    if a = x ∧ b = y then ([] :: (split x y s).1, (split x y s).2)
    else
      match split x y (b :: s) with
      | ([], r) => ([], a :: r)
      | (l :: ls, r) => ((a :: l) :: ls, r)

/-! ## Searching for a mark -/

theorem search_le (pat : List α) : ∀ s : List α, search pat s ≤ s.length
  | [] => Nat.le_refl _
  | a :: s => by
    have := search_le pat s
    simp only [search, List.length_cons]
    split <;> omega

theorem search_mark (s : List α) : search [x, y] (x :: y :: s) = 0 := by simp [search]

theorem search_singleton (a : α) : search [x, y] [a] = 1 := by simp [search]

theorem search_skip {a b : α} (h : ¬ (a = x ∧ b = y)) (s : List α) :
    search [x, y] (a :: b :: s) = search [x, y] (b :: s) + 1 := by
  have hpre : ¬ [x, y] <+: a :: b :: s := by
    rintro ⟨t, ht⟩
    simp only [List.cons_append, List.cons.injEq] at ht
    exact h ⟨ht.1.symm, ht.2.1.symm⟩
  rw [search, if_neg hpre]

/-- A search runs past a line without the pattern's first symbol. -/
theorem search_append {a : α} {l : List α} (hl : a ∉ l) (pat s : List α) :
    search (a :: pat) (l ++ s) = l.length + search (a :: pat) s := by
  induction l with
  | nil => exact (Nat.zero_add _).symm
  | cons b l ih =>
    have hpre : ¬ a :: pat <+: b :: (l ++ s) := fun h =>
      hl ((List.cons_prefix_cons.mp h).1 ▸ List.mem_cons_self)
    rw [List.cons_append, search, if_neg hpre, ih fun h => hl (List.mem_cons_of_mem _ h),
      List.length_cons]
    omega

/-- **The leftmost double mark is the blank line**, where no line before it is blank but the first
may be. -/
theorem search_blank (hxy : x ≠ y) {l : List α} {ls : List (List α)}
    (hx : ∀ l' ∈ l :: ls, x ∉ l') (hne : ∀ l' ∈ ls, l' ≠ []) (s : List α) :
    search [x, y, x, y] (join x y (l :: ls) ++ x :: y :: s) + 2 = (join x y (l :: ls)).length := by
  induction ls generalizing l with
  | nil =>
    have hl := hx l List.mem_cons_self
    have hpre : [x, y, x, y] <+: x :: y :: x :: y :: s := ⟨s, rfl⟩
    rw [join_cons, join_nil, List.append_assoc, List.cons_append, List.cons_append, List.nil_append,
      search_append hl, search, if_pos hpre, List.length_append]
    rfl
  | cons l' ls ih =>
    obtain ⟨hl, hx⟩ := List.forall_mem_cons.mp hx
    obtain ⟨hne', hrest⟩ := List.forall_mem_cons.mp hne
    obtain ⟨c, t, rfl⟩ := List.exists_cons_of_ne_nil hne'
    have hc : x ≠ c := fun h => hx (c :: t) List.mem_cons_self (h ▸ List.mem_cons_self)
    have hrec := ih hx hrest
    have hmark : ¬ [x, y, x, y] <+: x :: y :: (join x y ((c :: t) :: ls) ++ x :: y :: s) := by
      rw [join_cons, List.cons_append, List.cons_append, List.cons_prefix_cons,
        List.cons_prefix_cons, List.cons_prefix_cons]
      exact fun h => hc h.2.2.1
    have hskip : ¬ [x, y, x, y] <+: y :: (join x y ((c :: t) :: ls) ++ x :: y :: s) := by
      rw [List.cons_prefix_cons]
      exact fun h => hxy h.1
    rw [join_cons, List.append_assoc, List.cons_append, List.cons_append, search_append hl, search,
      if_neg hmark, search, if_neg hskip, List.length_append, List.length_cons, List.length_cons]
    omega

/-! ## Splitting -/

theorem split_mark (s : List α) :
    split x y (x :: y :: s) = ([] :: (split x y s).1, (split x y s).2) := by simp [split]

theorem split_skip_nil {a b : α} {s r : List α} (h : ¬ (a = x ∧ b = y))
    (hs : split x y (b :: s) = ([], r)) : split x y (a :: b :: s) = ([], a :: r) := by
  simp [split, h, hs]

theorem split_skip_cons {a b : α} {s l r : List α} {ls : List (List α)} (h : ¬ (a = x ∧ b = y))
    (hs : split x y (b :: s) = (l :: ls, r)) :
    split x y (a :: b :: s) = ((a :: l) :: ls, r) := by
  simp [split, h, hs]

/-- **Without a line the list has no mark**, and a search for one runs to its end. -/
theorem of_split_nil : ∀ {s r : List α}, split x y s = ([], r) →
    r = s ∧ search [x, y] s = s.length
  | [], r, h => by simp_all [split, search]
  | [a], r, h => by
    obtain ⟨-, rfl⟩ := Prod.ext_iff.mp h
    exact ⟨rfl, search_singleton a⟩
  | a :: b :: s, r, h => by
    by_cases hm : a = x ∧ b = y
    · obtain ⟨rfl, rfl⟩ := hm
      rw [split_mark] at h
      exact absurd (congrArg Prod.fst h) (List.cons_ne_nil _ _)
    · rcases hs : split x y (b :: s) with ⟨_ | ⟨l, ls⟩, r'⟩
      · rw [split_skip_nil hm hs] at h
        obtain ⟨rfl, hlen⟩ := of_split_nil hs
        rw [search_skip hm, hlen]
        exact ⟨(congrArg Prod.snd h).symm, rfl⟩
      · rw [split_skip_cons hm hs] at h
        exact absurd (congrArg Prod.fst h) (List.cons_ne_nil _ _)

/-- **The first line is what stands before the leftmost mark**, and the others are the lines of
what stands behind it. -/
theorem of_split_cons : ∀ {s l r : List α} {ls : List (List α)}, split x y s = (l :: ls, r) →
    ∃ t, s = l ++ x :: y :: t ∧ split x y t = (ls, r) ∧ search [x, y] s = l.length
  | [], l, r, ls, h => absurd (congrArg Prod.fst h) (List.cons_ne_nil _ _).symm
  | [a], l, r, ls, h => absurd (congrArg Prod.fst h) (List.cons_ne_nil _ _).symm
  | a :: b :: s, l, r, ls, h => by
    by_cases hm : a = x ∧ b = y
    · obtain ⟨rfl, rfl⟩ := hm
      rw [split_mark] at h
      simp only [Prod.mk.injEq, List.cons.injEq] at h
      obtain ⟨⟨rfl, hls⟩, hr⟩ := h
      exact ⟨s, rfl, Prod.ext hls hr, search_mark s⟩
    · rcases hs : split x y (b :: s) with ⟨_ | ⟨l', ls'⟩, r'⟩
      · rw [split_skip_nil hm hs] at h
        exact absurd (congrArg Prod.fst h) (List.cons_ne_nil _ _).symm
      · rw [split_skip_cons hm hs] at h
        simp only [Prod.mk.injEq, List.cons.injEq] at h
        obtain ⟨⟨rfl, rfl⟩, rfl⟩ := h
        obtain ⟨t, ht, hsp, hlen⟩ := of_split_cons hs
        exact ⟨t, by rw [ht, List.cons_append], hsp, by rw [search_skip hm, hlen, List.length_cons]⟩

/-- A line without the mark's first symbol is cut off as it is. -/
theorem split_append {l : List α} (hl : x ∉ l) (s : List α) :
    split x y (l ++ x :: y :: s) = (l :: (split x y s).1, (split x y s).2) := by
  induction l with
  | nil => exact split_mark s
  | cons a l ih =>
    have ha : a ≠ x := fun h => hl (h ▸ List.mem_cons_self)
    have hrec := ih fun h => hl (List.mem_cons_of_mem _ h)
    cases l with
    | nil => exact split_skip_cons (fun h => ha h.1) hrec
    | cons b l => exact split_skip_cons (fun h => ha h.1) hrec

theorem split_join {ls : List (List α)} (h : ∀ l ∈ ls, x ∉ l) :
    split x y (join x y ls) = (ls, []) := by
  induction ls with
  | nil => rfl
  | cons l ls ih =>
    rw [join_cons, split_append (h l List.mem_cons_self),
      ih fun l' hl' => h l' (List.mem_cons_of_mem _ hl')]

/-- **Splitting loses nothing.** -/
theorem join_split_append (s : List α) : join x y (split x y s).1 ++ (split x y s).2 = s := by
  rcases h : split x y s with ⟨ls, r⟩
  induction ls generalizing s with
  | nil => exact (of_split_nil h).1
  | cons l ls ih =>
    obtain ⟨t, rfl, ht, -⟩ := of_split_cons h
    simpa using ih t ht

/-- A list that ends in a mark has no rest: `x ≠ y`, so no earlier mark reaches into the last. -/
theorem split_rest_of_mark (hxy : x ≠ y) : ∀ s : List α, (split x y (s ++ [x, y])).2 = []
  | [] => by rw [List.nil_append, split_mark, split]
  | [a] => by
    have hm : ¬ (a = x ∧ x = y) := fun h => hxy h.2
    exact congrArg Prod.snd (split_skip_cons hm (split_mark []))
  | a :: b :: s => by
    by_cases hm : a = x ∧ b = y
    · rw [hm.1, hm.2]
      exact (congrArg Prod.snd (split_mark _)).trans (split_rest_of_mark hxy s)
    · have ih := split_rest_of_mark hxy (b :: s)
      rcases hs : split x y (b :: (s ++ [x, y])) with ⟨_ | ⟨l, ls⟩, r⟩
      · rw [List.cons_append, hs] at ih
        exact absurd ((of_split_nil hs).1.symm.trans ih) (List.cons_ne_nil _ _)
      · rw [List.cons_append, hs] at ih
        exact (congrArg Prod.snd (split_skip_cons hm hs)).trans ih

/-- **A list has no rest exactly when it is empty or ends in a mark.** -/
theorem split_rest_nil_iff (hxy : x ≠ y) (s : List α) :
    (split x y s).2 = [] ↔ s = [] ∨ [x, y] <:+ s := by
  constructor
  · intro h
    have hjoin := join_split_append (x := x) (y := y) s
    rw [h, List.append_nil] at hjoin
    rcases List.eq_nil_or_concat (split x y s).1 with hls | ⟨ls, l, hls⟩
    · left
      rw [← hjoin, hls, join_nil]
    · right
      rw [← hjoin, hls]
      exact ⟨join x y ls ++ l, by simp⟩
  · rintro (rfl | ⟨s, rfl⟩)
    · rfl
    · exact split_rest_of_mark hxy s

end Lines
