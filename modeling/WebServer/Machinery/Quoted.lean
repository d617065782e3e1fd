import Mathlib

/-!
# Machinery/Quoted — text with quoted literals

A text is read as what stands outside its quotes and the literals between them.  Inside a literal a
doubled quote is a quote, and an escape changes what the next character means, or keeps it as it is
written.

Every character read was written, and an escaped or doubled one was written with two; so a text
that is cut short, or whose literals mean anything but what they say, reads as something shorter.
That is `read_take_iff`.
-/

/-- A quote, an escape, and what an escaped character means: itself with its escape, if it is
`kept`. -/
structure Quoting (α : Type*) where
  quote : α
  escape : α
  kept : α → Bool
  meaning : α → α

namespace Quoting

inductive Piece (α : Type*) where
  /-- A character outside the literals. -/
  | text (c : α)
  | literal (s : List α)
  deriving DecidableEq, Repr

/-- Where a reader stands; `s` is what it has of a literal. -/
inductive Mode (α : Type*) where
  | text
  | literal (s : List α)
  /-- After a quote in a literal. -/
  | closing (s : List α)
  /-- After an escape in a literal. -/
  | escaped (s : List α)
  deriving DecidableEq, Repr

variable {α : Type*} [DecidableEq α] (q : Quoting α)

def unescape (c : α) : List α := if q.kept c then [q.escape, c] else [q.meaning c]

/-- The pieces of a text; none if a literal is not closed. -/
def read : Mode α → List α → Option (List (Piece α))
  | .text, [] => some []
  | .closing s, [] => some [.literal s]
  | .literal _, [] | .escaped _, [] => none
  | .text, c :: rest =>
    if c = q.quote then read (.literal []) rest else (read .text rest).map (.text c :: ·)
  | .literal s, c :: rest =>
    if c = q.quote then read (.closing s) rest
    else if c = q.escape then read (.escaped s) rest
    else read (.literal (s ++ [c])) rest
  | .closing s, c :: rest =>
    if c = q.quote then read (.literal (s ++ [q.quote])) rest
    else (read .text rest).map (.literal s :: .text c :: ·)
  | .escaped s, c :: rest => read (.literal (s ++ q.unescape c)) rest

/-- A piece, written down as it is. -/
def Piece.print : Piece α → List α
  | .text c => [c]
  | .literal s => q.quote :: s ++ [q.quote]

def print (ps : List (Piece α)) : List α := ps.flatMap (Piece.print q)

/-- A literal that means what it says: no quotes, and no escapes but those that are kept. -/
inductive Plain : List α → Prop
  | nil : Plain []
  | char {c : α} {s : List α} (hquote : c ≠ q.quote) (hescape : c ≠ q.escape) (hs : Plain s) :
      Plain (c :: s)
  | kept {c : α} {s : List α} (hc : q.kept c = true) (hs : Plain s) : Plain (q.escape :: c :: s)

variable {q} {c : α} {s t rest : List α} {m : Mode α} {ps : List (Piece α)}

omit [DecidableEq α] in
theorem Plain.append (hs : q.Plain s) (ht : q.Plain t) : q.Plain (s ++ t) := by
  induction hs with
  | nil => exact ht
  | char hquote hescape _ ih => exact .char hquote hescape ih
  | kept hc _ ih => exact .kept hc ih

omit [DecidableEq α] in
/-- **A plain literal has no quote, and a kept character after each escape.** -/
theorem plain_iff (hquote : q.kept q.quote = false) (hescape : q.kept q.escape = false)
    (hne : q.escape ≠ q.quote) :
    q.Plain s ↔ q.quote ∉ s ∧
      ∀ front back, s = front ++ q.escape :: back →
        ∃ c rest, back = c :: rest ∧ q.kept c = true := by
  constructor
  · intro hs
    induction hs with
    | nil => exact ⟨List.not_mem_nil, fun front back h => by simp at h⟩
    | @char c s hc he _ ih =>
      refine ⟨fun hmem => ?_, fun front back h => ?_⟩
      · exact (List.mem_cons.mp hmem).elim (fun heq => hc heq.symm) ih.1
      · cases front with
        | nil => exact absurd (List.cons.inj h).1 he
        | cons x front => exact ih.2 front back (List.cons.inj h).2
    | @kept c s hc _ ih =>
      have hcq : c ≠ q.quote := by
        rintro rfl
        rw [hquote] at hc
        cases hc
      refine ⟨fun hmem => ?_, fun front back h => ?_⟩
      · obtain heq | hmem := List.mem_cons.mp hmem
        · exact hne heq.symm
        · exact (List.mem_cons.mp hmem).elim (fun heq => hcq heq.symm) ih.1
      · match front, h with
        | [], h => exact ⟨c, s, (List.cons.inj h).2.symm, hc⟩
        | [x], h =>
          have heq := (List.cons.inj (List.cons.inj h).2).1
          rw [heq, hescape] at hc
          cases hc
        | x :: y :: front, h => exact ih.2 front back (List.cons.inj (List.cons.inj h).2).2
  · induction hn : s.length using Nat.strong_induction_on generalizing s with
    | _ n ih =>
      rintro ⟨hmem, hkept⟩
      cases s with
      | nil => exact .nil
      | cons c s =>
        obtain ⟨hc, hs⟩ := not_or.mp (List.mem_cons.not.mp hmem)
        by_cases he : c = q.escape
        · obtain ⟨k, rest, rfl, hk⟩ := hkept [] s (by rw [he, List.nil_append])
          rw [he]
          refine .kept hk (ih rest.length ?_ rfl ⟨fun h => hs (List.mem_cons_of_mem k h), ?_⟩)
          · rw [← hn, List.length_cons, List.length_cons]
            omega
          · intro front back h
            exact hkept (c :: k :: front) back (by rw [h]; rfl)
        · refine .char (Ne.symm hc) he (ih s.length ?_ rfl ⟨hs, fun front back h => ?_⟩)
          · rw [← hn, List.length_cons]
            exact Nat.lt_succ_self _
          · exact hkept (c :: front) back (by rw [h]; rfl)

/-! ## Reading what was written -/

omit [DecidableEq α] in
theorem print_cons (p : Piece α) (ps : List (Piece α)) :
    q.print (p :: ps) = p.print q ++ q.print ps := List.flatMap_cons

theorem read_text (ht : q.quote ∉ t) (rest : List α) :
    q.read .text (t ++ rest) = (q.read .text rest).map (t.map .text ++ ·) := by
  induction t with
  | nil => simp
  | cons c t ih =>
    obtain ⟨hc, ht⟩ := not_or.mp (List.mem_cons.not.mp ht)
    rw [List.cons_append, read, if_neg (Ne.symm hc), ih ht, Option.map_map]
    rfl

theorem Plain.read_literal (hs : q.Plain s) (hne : q.escape ≠ q.quote) (front rest : List α) :
    q.read (.literal front) (s ++ rest) = q.read (.literal (front ++ s)) rest := by
  induction hs generalizing front with
  | nil => simp
  | @char c s hquote hescape _ ih =>
    rw [List.cons_append, read, if_neg hquote, if_neg hescape, ih, List.append_assoc]
    rfl
  | @kept c s hc _ ih =>
    rw [List.cons_append, List.cons_append, read, if_neg hne, if_pos rfl, read, unescape, if_pos hc,
      ih, List.append_assoc]
    rfl

/-- **A plain literal is read as it was written**, if no quote follows. -/
theorem Plain.read (hs : q.Plain s) (hne : q.escape ≠ q.quote)
    (hrest : ∀ c tail, rest = c :: tail → c ≠ q.quote) :
    q.read .text (q.quote :: s ++ q.quote :: rest) =
      (q.read .text rest).map (.literal s :: ·) := by
  rw [List.cons_append, Quoting.read, if_pos rfl, hs.read_literal hne, List.nil_append,
    Quoting.read, if_pos rfl]
  cases rest with
  | nil => rfl
  | cons c rest =>
    rw [Quoting.read, Quoting.read, if_neg (hrest c rest rfl), if_neg (hrest c rest rfl),
      Option.map_map]
    rfl

/-! ## What can be read -/

/-- What a reader has seen of the literal it stands in, if that means what it says. -/
def Mode.seen (q : Quoting α) : Mode α → List α
  | .text => []
  | .literal s => q.quote :: s
  | .closing s => q.quote :: s ++ [q.quote]
  | .escaped s => q.quote :: s ++ [q.escape]

/-- What it has of that literal is plain. -/
def Mode.Plain (q : Quoting α) : Mode α → Prop
  | .text => True
  | .literal s | .closing s | .escaped s => q.Plain s

/-- The pieces are no longer than what is written; if they are as long, they are what is written,
and the literals are plain. -/
def Says (q : Quoting α) (ps : List (Piece α)) (s : List α) : Prop :=
  (q.print ps).length ≤ s.length ∧
    ((q.print ps).length = s.length → q.print ps = s ∧ ∀ s, .literal s ∈ ps → q.Plain s)

omit [DecidableEq α] in
theorem Says.text (h : q.Says ps s) (c : α) : q.Says (.text c :: ps) (c :: s) := by
  have hprint : q.print (.text c :: ps) = c :: q.print ps := rfl
  rw [Says, hprint, List.length_cons, List.length_cons, Nat.add_le_add_iff_right,
    Nat.add_right_cancel_iff]
  refine ⟨h.1, fun hlen => ?_⟩
  obtain ⟨hs, hplain⟩ := h.2 hlen
  exact ⟨congrArg (c :: ·) hs, fun t ht => hplain t (by simpa using ht)⟩

omit [DecidableEq α] in
theorem Says.literal (h : q.Says ps s) (ht : q.Plain t) :
    q.Says (.literal t :: ps) (q.quote :: t ++ [q.quote] ++ s) := by
  have hprint : q.print (.literal t :: ps) = q.quote :: t ++ [q.quote] ++ q.print ps := rfl
  have hlength : ∀ s, (q.quote :: t ++ [q.quote] ++ s).length
      = (q.quote :: t ++ [q.quote]).length + s.length := fun s => List.length_append
  rw [Says, hprint, hlength, hlength, Nat.add_le_add_iff_left, Nat.add_left_cancel_iff]
  refine ⟨h.1, fun hlen => ?_⟩
  obtain ⟨hs, hplain⟩ := h.2 hlen
  refine ⟨congrArg (q.quote :: t ++ [q.quote] ++ ·) hs, fun t' ht' => ?_⟩
  obtain heq | hmem := List.mem_cons.mp ht'
  · cases heq
    exact ht
  · exact hplain t' hmem

omit [DecidableEq α] in
/-- What says less than is written. -/
theorem Says.of_lt (h : (q.print ps).length < s.length) : q.Says ps s :=
  ⟨h.le, fun hlen => absurd hlen h.ne⟩

/-- **Nothing reads as more than what is written.** -/
theorem length_le_of_read (h : q.read m s = some ps) :
    (q.print ps).length ≤ (m.seen q).length + s.length := by
  induction s generalizing m ps with
  | nil =>
    cases m with
    | text | closing =>
      cases h
      simp [print, Piece.print, Mode.seen]
    | literal | escaped => cases h
  | cons c rest ih =>
    cases m with
    | text =>
      rw [read] at h
      split at h
      · have hle := ih h
        simp only [Mode.seen, List.length_cons, List.length_nil] at hle ⊢
        omega
      · obtain ⟨ps', h', rfl⟩ := Option.map_eq_some_iff.mp h
        have hle := ih h'
        simp only [print_cons, Piece.print, Mode.seen, List.length_append, List.length_cons,
          List.length_nil] at hle ⊢
        omega
    | literal s =>
      rw [read] at h
      split_ifs at h
      all_goals
        have hle := ih h
        simp only [Mode.seen, List.length_append, List.length_cons, List.length_nil] at hle ⊢
        omega
    | closing s =>
      rw [read] at h
      split at h
      · have hle := ih h
        simp only [Mode.seen, List.length_append, List.length_cons, List.length_nil] at hle ⊢
        omega
      · obtain ⟨ps', h', rfl⟩ := Option.map_eq_some_iff.mp h
        have hle := ih h'
        simp only [print_cons, Piece.print, Mode.seen, List.length_append, List.length_cons,
          List.length_nil] at hle ⊢
        omega
    | escaped s =>
      have hle := ih h
      have hone : (q.unescape c).length ≤ 2 := by
        rw [unescape]
        split <;> simp
      simp only [Mode.seen, List.length_append, List.length_cons, List.length_nil] at hle ⊢
      omega

/-- **What reads as as much as is written is what is written**, as long as what was read of a
literal is plain. -/
theorem says_of_read (h : q.read m s = some ps) (hplain : m.Plain q) :
    q.Says ps (m.seen q ++ s) := by
  induction s generalizing m ps with
  | nil =>
    have hnil : q.Says ([] : List (Piece α)) [] :=
      ⟨le_rfl, fun _ => ⟨rfl, fun _ hmem => absurd hmem List.not_mem_nil⟩⟩
    cases m with
    | text =>
      cases h
      exact hnil
    | closing s =>
      cases h
      exact hnil.literal hplain
    | literal | escaped => cases h
  | cons c rest ih =>
    cases m with
    | text =>
      rw [read] at h
      split at h
      next hc =>
        subst hc
        exact ih h .nil
      next hc =>
        obtain ⟨ps', h', rfl⟩ := Option.map_eq_some_iff.mp h
        exact (ih h' trivial).text c
    | literal s =>
      rw [read] at h
      split at h
      next hc =>
        subst hc
        have hsays := ih h hplain
        rwa [Mode.seen, List.append_assoc, List.singleton_append] at hsays
      next hquote =>
        split at h
        next hc =>
          subst hc
          have hsays := ih h hplain
          rwa [Mode.seen, List.append_assoc, List.singleton_append] at hsays
        next hescape =>
          have hsays := ih h (Plain.append hplain (.char hquote hescape .nil))
          rwa [Mode.seen, ← List.cons_append, List.append_assoc, List.singleton_append] at hsays
    | closing s =>
      rw [read] at h
      split at h
      · -- A doubled quote says less than is written.
        have hle := length_le_of_read h
        refine Says.of_lt ?_
        simp only [Mode.seen, List.length_append, List.length_cons, List.length_nil] at hle ⊢
        omega
      · obtain ⟨ps', h', rfl⟩ := Option.map_eq_some_iff.mp h
        exact ((ih h' trivial).text c).literal hplain
    | escaped s =>
      rw [read] at h
      cases hkept : q.kept c
      · have hle := length_le_of_read h
        refine Says.of_lt ?_
        have hone : (q.unescape c).length = 1 := by
          rw [unescape, hkept]
          rfl
        simp only [Mode.seen, List.length_append, List.length_cons, List.length_nil] at hle ⊢
        omega
      · have hunescape : q.unescape c = [q.escape, c] := if_pos hkept
        rw [hunescape] at h
        have hsays := ih h (Plain.append hplain (.kept hkept .nil))
        simpa [Mode.seen] using hsays

/-! ## Templates -/

/-- The pieces of a template: texts that are each followed by a literal, and the text at the end. -/
def pieces : List (List α × List α) → List α → List (Piece α)
  | [], last => last.map .text
  | (t, s) :: parts, last => t.map .text ++ .literal s :: pieces parts last

variable {parts : List (List α × List α)} {last : List α}

omit [DecidableEq α] in
theorem print_map_text (t : List α) (ps : List (Piece α)) :
    q.print (t.map .text ++ ps) = t ++ q.print ps := by
  induction t with
  | nil => rfl
  | cons c t ih => exact congrArg (c :: ·) ih

omit [DecidableEq α] in
theorem print_pieces_nil : q.print (pieces [] last) = last := by
  have h := print_map_text (q := q) last []
  rwa [List.append_nil, show q.print [] = [] from rfl, List.append_nil] at h

omit [DecidableEq α] in
theorem print_pieces_cons : q.print (pieces ((t, s) :: parts) last) =
    t ++ (q.quote :: s ++ q.quote :: q.print (pieces parts last)) := by
  rw [pieces, print_map_text, print_cons, Piece.print, List.append_assoc]
  rfl

omit [DecidableEq α] in
theorem literal_mem_pieces : .literal s ∈ pieces parts last ↔ ∃ p ∈ parts, p.2 = s := by
  induction parts with
  | nil => simp [pieces]
  | cons p parts ih =>
    obtain ⟨t, s'⟩ := p
    simp [pieces, ih, eq_comm]

/-- **A template with plain literals is read as it was written**, if no two of them meet. -/
theorem read_print (hne : q.escape ≠ q.quote) (htext : ∀ p ∈ parts, q.quote ∉ p.1)
    (hgap : ∀ p ∈ parts.tail, p.1 ≠ []) (hlast : q.quote ∉ last)
    (hplain : ∀ p ∈ parts, q.Plain p.2) :
    q.read .text (q.print (pieces parts last)) = some (pieces parts last) := by
  induction parts with
  | nil =>
    have h := read_text hlast []
    rw [List.append_nil] at h
    rw [print_pieces_nil, h]
    simp [read, pieces]
  | cons p parts ih =>
    obtain ⟨t, s⟩ := p
    obtain ⟨ht, htext⟩ := List.forall_mem_cons.mp htext
    obtain ⟨hs, hplain⟩ := List.forall_mem_cons.mp hplain
    have hrest : ∀ c tail, q.print (pieces parts last) = c :: tail → c ≠ q.quote := by
      intro c tail h
      cases parts with
      | nil =>
        rw [print_pieces_nil] at h
        rintro rfl
        exact hlast (h ▸ List.mem_cons_self)
      | cons p parts =>
        obtain ⟨t', s'⟩ := p
        obtain ⟨x, xs, hx⟩ := List.exists_cons_of_ne_nil (hgap (t', s') List.mem_cons_self)
        rw [print_pieces_cons, show t' = x :: xs from hx] at h
        obtain rfl := (List.cons.inj h).1
        rintro rfl
        exact htext (t', s') List.mem_cons_self (by rw [hx]; exact List.mem_cons_self)
    rw [print_pieces_cons, read_text ht, hs.read hne hrest,
      ih htext (fun p hp => hgap p (List.mem_of_mem_tail hp)) hplain]
    rfl

/-- **What is left of a template is read as the template if and only if all of it is left and its
literals are plain.** -/
theorem read_take_iff (hne : q.escape ≠ q.quote) (htext : ∀ p ∈ parts, q.quote ∉ p.1)
    (hgap : ∀ p ∈ parts.tail, p.1 ≠ []) (hlast : q.quote ∉ last) (n : ℕ) :
    q.read .text ((q.print (pieces parts last)).take n) = some (pieces parts last) ↔
      (q.print (pieces parts last)).length ≤ n ∧ ∀ p ∈ parts, q.Plain p.2 := by
  refine ⟨fun h => ?_, fun ⟨hlen, hplain⟩ => ?_⟩
  · obtain ⟨hle, heq⟩ := says_of_read h trivial
    rw [Mode.seen, List.nil_append, List.length_take] at hle heq
    have hlen : (q.print (pieces parts last)).length ≤ n := by omega
    rw [min_eq_right hlen] at heq
    exact ⟨hlen, fun p hp => (heq rfl).2 p.2 (literal_mem_pieces.mpr ⟨p, hp, rfl⟩)⟩
  · rw [List.take_of_length_le hlen]
    exact read_print hne htext hgap hlast hplain

end Quoting
