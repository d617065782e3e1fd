import WebServer.Http.Message

/-!
# Http/Grammar — which lines the two patterns accept

The patterns have starred groups and an optional space, and still each line is read in one way: a
group `[^d]*` ends at the first `d`, because a `d` is what must follow it.  `lines_exact` says which
lines the handlers take, and what they make of them.
-/

namespace WebServer

namespace HttpRequest

variable {d : Byte} {s t u line : Bytes}

/-! ## The two sides of a delimiter -/

/-- The text before the first `d`. -/
def before (d : Byte) (s : Bytes) : Bytes := s.takeWhile (· != d)

/-- The text behind the first `d`. -/
def after (d : Byte) (s : Bytes) : Bytes := (s.dropWhile (· != d)).tail

theorem not_mem_before (d : Byte) (s : Bytes) : d ∉ before d s := by
  intro hd
  simpa using List.mem_takeWhile_imp hd

theorem dropWhile_of_mem (h : d ∈ s) : s.dropWhile (· != d) = d :: after d s := by
  induction s with
  | nil => cases h
  | cons c s ih =>
    by_cases hc : c = d
    · subst hc
      simp [after]
    · have hs : d ∈ s := (List.mem_cons.mp h).resolve_left (Ne.symm hc)
      rw [after, List.dropWhile_cons_of_pos (by simpa using hc), ih hs]
      rfl

theorem dropWhile_of_not_mem (h : d ∉ s) : s.dropWhile (· != d) = [] := by
  simpa using fun c hc => ne_of_mem_of_not_mem hc h

/-- **The first delimiter splits the text.** -/
theorem before_append_after (h : d ∈ s) : before d s ++ d :: after d s = s := by
  rw [before, ← dropWhile_of_mem h, List.takeWhile_append_dropWhile]

/-- …and in one way. -/
theorem split_unique (hu : d ∉ u) : before d (u ++ d :: t) = u ∧ after d (u ++ d :: t) = t := by
  have hall : ∀ c ∈ u, (c != d) = true := by simpa using fun c hc => ne_of_mem_of_not_mem hc hu
  constructor
  · rw [before, List.takeWhile_append_of_pos hall]
    simp
  · rw [after, List.dropWhile_append_of_pos hall]
    simp

theorem count_of_mem (h : d ∈ s) : s.count d = (after d s).count d + 1 := by
  conv_lhs => rw [← before_append_after h]
  rw [List.count_append, List.count_eq_zero.mpr (not_mem_before d s), List.count_cons_self,
    Nat.zero_add]

/-! ## The pieces of the patterns -/

/-- **A group that its delimiter ends.** -/
theorem fullMatch_delim (d : Byte) (s : Bytes) (items : List (Regex.Item Byte)) :
    Regex.fullMatch (Regex.group (.many (· != d)) :: (lit [d] ++ items)) s
      = if d ∈ s then (Regex.fullMatch items (after d s)).map (before d s :: ·) else none := by
  by_cases h : d ∈ s
  · conv_lhs => rw [← before_append_after h]
    rw [if_pos h, fullMatch_until (not_mem_before d s)]
  · rw [if_neg h, Regex.fullMatch_many, dropWhile_of_not_mem h]
    · rfl
    · intro a s ha
      have had : ¬ a = d := by simpa using ha
      simp [lit, had]

/-- **A literal text.** -/
theorem fullMatch_literal (t s : Bytes) (items : List (Regex.Item Byte)) :
    Regex.fullMatch (lit t ++ items) s
      = if t <+: s then Regex.fullMatch items (s.drop t.length) else none := by
  by_cases h : t <+: s
  · obtain ⟨rest, rfl⟩ := h
    rw [if_pos (List.prefix_append t rest), fullMatch_lit, List.drop_left]
  · rw [if_neg h]
    induction t generalizing s with
    | nil => exact absurd (List.nil_prefix) h
    | cons c t ih =>
      cases s with
      | nil => rfl
      | cons c' s =>
        simp only [lit, List.map_cons, List.cons_append, Regex.fullMatch_one_cons, beq_iff_eq]
        split
        next heq =>
          subst heq
          exact ih s fun hprefix => h (List.cons_prefix_cons.mpr ⟨rfl, hprefix⟩)
        next => rfl

/-! ## The request line -/

/-- Exactly two spaces, and `HTTP/` behind the second. -/
def IsRequestLine (line : Bytes) : Prop :=
  line.count SP = 2 ∧ str "HTTP/" <+: after SP (after SP line)

theorem drop_http (rest : Bytes) : (str "HTTP/" ++ rest).drop 5 = rest := List.drop_left' rfl

instance (line : Bytes) : Decidable (IsRequestLine line) := inferInstanceAs (Decidable (_ ∧ _))

theorem isRequestLine_iff : IsRequestLine line ↔ SP ∈ line ∧ SP ∈ after SP line ∧
    str "HTTP/" <+: after SP (after SP line) ∧ SP ∉ (after SP (after SP line)).drop 5 := by
  rw [IsRequestLine]
  by_cases h₁ : SP ∈ line
  · rw [and_iff_right h₁, count_of_mem h₁]
    by_cases h₂ : SP ∈ after SP line
    · rw [and_iff_right h₂, count_of_mem h₂, and_comm]
      refine and_congr_right fun hprefix => ?_
      obtain ⟨rest, hrest⟩ := hprefix
      have hcount : (str "HTTP/").count SP = 0 := by decide
      rw [← hrest, List.count_append, hcount, drop_http, ← List.count_eq_zero]
      omega
    · rw [List.count_eq_zero.mpr h₂]
      exact iff_of_false (fun h => by simpa using h.1) fun h => h₂ h.1
  · rw [List.count_eq_zero.mpr h₁]
    exact iff_of_false (fun h => by simpa using h.1) fun h => h₁ h.1

/-- **The pattern accepts these lines**, and its groups are the three words. -/
theorem fullMatch_requestLinePattern (line : Bytes) :
    Regex.fullMatch requestLinePattern line = if IsRequestLine line then
      some [before SP line, before SP (after SP line), (after SP (after SP line)).drop 5]
    else none := by
  have hpat : requestLinePattern = Regex.group (.many (· != SP)) :: (lit [SP]
      ++ Regex.group (.many (· != SP)) :: (lit [SP] ++ (lit (str "HTTP/")
      ++ [Regex.group (.many (· != SP))]))) := rfl
  have hlast : ((after SP (after SP line)).drop 5).all (· != SP) = true ↔
      SP ∉ (after SP (after SP line)).drop 5 := by
    rw [List.all_eq_true]
    exact ⟨fun h hsp => by simpa using h SP hsp,
      fun h c hc => by simpa using ne_of_mem_of_not_mem hc h⟩
  have hlen : (str "HTTP/").length = 5 := rfl
  rw [hpat, fullMatch_delim, fullMatch_delim, fullMatch_literal, Regex.fullMatch_many_last, hlen]
  by_cases h : IsRequestLine line
  · obtain ⟨h₁, h₂, h₃, h₄⟩ := isRequestLine_iff.mp h
    rw [if_pos h, if_pos h₁, if_pos h₂, if_pos h₃, if_pos (hlast.mpr h₄)]
    rfl
  · rw [if_neg h]
    by_cases h₁ : SP ∈ line
    · by_cases h₂ : SP ∈ after SP line
      · by_cases h₃ : str "HTTP/" <+: after SP (after SP line)
        · have h₄ := fun hall => h (isRequestLine_iff.mpr ⟨h₁, h₂, h₃, hlast.mp hall⟩)
          rw [if_pos h₁, if_pos h₂, if_pos h₃, if_neg h₄]
          rfl
        · rw [if_pos h₁, if_pos h₂, if_neg h₃]
          rfl
      · rw [if_pos h₁, if_neg h₂]
        rfl
    · rw [if_neg h₁]

/-- **These lines are split into words in one way.** -/
theorem requestLine_unique (h : IsRequestLine line) {method path version : Bytes} :
    line = requestLine method path version ↔ method = before SP line ∧
      path = before SP (after SP line) ∧ version = (after SP (after SP line)).drop 5 := by
  obtain ⟨h₁, h₂, h₃, -⟩ := isRequestLine_iff.mp h
  constructor
  · rintro rfl
    have hcount := h.1
    rw [requestLine, List.count_append, List.count_cons_self, List.count_append,
      List.count_cons_self] at hcount
    have hm : SP ∉ method := List.count_eq_zero.mp (by omega)
    have hp : SP ∉ path := List.count_eq_zero.mp (by omega)
    rw [requestLine, (split_unique hm).1, (split_unique hm).2, (split_unique hp).1,
      (split_unique hp).2]
    exact ⟨rfl, rfl, (drop_http version).symm⟩
  · rintro ⟨rfl, rfl, rfl⟩
    obtain ⟨rest, hrest⟩ := h₃
    rw [requestLine, ← hrest, drop_http, hrest, before_append_after h₂, before_append_after h₁]

/-! ## Header lines -/

/-- A colon, and no line terminator behind the first. -/
def IsHeaderLine (line : Bytes) : Prop :=
  COLON ∈ line ∧ ∀ c ∈ after COLON line, c ≠ CR ∧ c ≠ LF

instance (line : Bytes) : Decidable (IsHeaderLine line) := inferInstanceAs (Decidable (_ ∧ _))

theorem fullMatch_headerPattern (line : Bytes) :
    Regex.fullMatch headerPattern line = if IsHeaderLine line then
      some [before COLON line, dropSpace (after COLON line)] else none := by
  have hpat : headerPattern = Regex.group (.many (· != COLON)) :: (lit [COLON]
      ++ [Regex.skip (.opt (· == SP)), Regex.group (.many fun c => c != CR && c != LF)]) := rfl
  rw [hpat, fullMatch_delim, fullMatch_value]
  by_cases hcolon : COLON ∈ line
  · by_cases htext : ∀ c ∈ after COLON line, c ≠ CR ∧ c ≠ LF
    · rw [if_pos hcolon, if_pos htext, if_pos ⟨hcolon, htext⟩]
      rfl
    · rw [if_pos hcolon, if_neg htext, if_neg fun h => htext h.2]
      rfl
  · rw [if_neg hcolon, if_neg fun h => hcolon h.1]

/-! ## The two handlers -/

variable (r : HttpRequest)

theorem parseRequestLine_eq (line : Bytes) : r.parseRequestLine line =
    if IsRequestLine line then
      (true, { r with
        method := before SP line
        path := before SP (after SP line)
        version := (after SP (after SP line)).drop 5
        state := .headers })
    else (false, r) := by
  rw [parseRequestLine, fullMatch_requestLinePattern]
  by_cases h : IsRequestLine line
  · rw [if_pos h, if_pos h]
  · rw [if_neg h, if_neg h]

theorem parseHeaders_eq (hline : line ≠ []) : r.parseHeaders line =
    if IsHeaderLine line then
      (true, { r with
        headers := r.headers.set (before COLON line) (dropSpace (after COLON line)) })
    else (false, r) := by
  rw [parseHeaders, if_neg (by simpa using hline), fullMatch_headerPattern]
  by_cases h : IsHeaderLine line
  · rw [if_pos h, if_pos h]
  · rw [if_neg h, if_neg h]

/-- **The grammar of the lines.**  `_parseRequestLine` takes a line with exactly two spaces and
`HTTP/` behind the second, and sets the words that it is split into in one way; `_parseHeaders`
takes a line with a colon and no line terminator behind the first, and sets the header named before
it.  A line that is not taken changes nothing. -/
theorem lines_exact (line : Bytes) :
    ((r.parseRequestLine line).1 = true ↔ IsRequestLine line) ∧
    (IsRequestLine line → ∃ method path version,
      (∀ m p v, line = m ++ SP :: (p ++ SP :: (str "HTTP/" ++ v)) ↔
        m = method ∧ p = path ∧ v = version) ∧
      (r.parseRequestLine line).2 = { r with method, path, version, state := .headers }) ∧
    ((r.parseRequestLine line).1 = false → (r.parseRequestLine line).2 = r) ∧
    (line ≠ [] →
      ((r.parseHeaders line).1 = true ↔ IsHeaderLine line) ∧
      (IsHeaderLine line → ∃ name text headers, COLON ∉ name ∧ line = name ++ COLON :: text ∧
        (r.parseHeaders line).2 = { r with headers } ∧
        headers name = some (dropSpace text) ∧ ∀ other ≠ name, headers other = r.headers other) ∧
      ((r.parseHeaders line).1 = false → (r.parseHeaders line).2 = r)) := by
  refine ⟨?_, fun h => ?_, ?_, fun hline => ⟨?_, fun h => ?_, ?_⟩⟩
  · rw [parseRequestLine_eq]
    split <;> simp [*]
  · refine ⟨_, _, _, fun m p v => requestLine_unique h, ?_⟩
    rw [parseRequestLine_eq, if_pos h]
  · rw [parseRequestLine_eq]
    split <;> simp
  · rw [parseHeaders_eq r hline]
    split <;> simp [*]
  · refine ⟨before COLON line, after COLON line,
      r.headers.set (before COLON line) (dropSpace (after COLON line)), not_mem_before COLON line,
      (before_append_after h.1).symm, ?_, ?_, fun other hother => ?_⟩
    · rw [parseHeaders_eq r hline, if_pos h]
    · rw [Dict.set_self]
    · rw [Dict.set_of_ne hother]
  · rw [parseHeaders_eq r hline]
    split <;> simp

end HttpRequest

end WebServer
