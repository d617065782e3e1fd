import WebServer.Http.Conn
import WebServer.Machinery.Machine

/-!
# Http/Write — what the socket has sent and what the gather list describes make up the response

`Lists` is what `write` needs of the gather list and keeps of it; `Carries` adds the bytes: those
sent, followed by those still described, are the head and the file.  `Lists.took` is the step
lemma, over both branches of the loop's body; `Carries.took` and `Carries.write` carry it through
the loop, and `Carries.reach` through any sequence of calls.
-/

namespace WebServer

namespace Buffer

/-- `retrieve` either fails its assertion or leaves the vector alone. -/
theorem retrieve_cases (b : Buffer) (n : ℕ) :
    (∃ b', b.retrieve n = .ok b' ∧ b'.buf = b.buf) ∨
      b.retrieve n = .error (.assertion "len <= getReadableBytes()") := by
  rw [retrieve, assert]
  split
  · exact .inl ⟨_, rfl, rfl⟩
  · exact .inr rfl

end Buffer

namespace HttpConn

variable {files : ℕ → Bytes} {abi : Abi Members} {isET : Bool} {io : ℕ → Writev}
  {v₁ : Iovec} {c c' : HttpConn} {s s' : Sending}

/-! ## The gather list -/

/-- The bytes that the two entries describe. -/
def rest (files : ℕ → Bytes) (c : HttpConn) : Bytes := Span.gather (c.mem files) [c.iov0, c.iov1]

/-- Both entries lie in memory, `_iov_count` covers those that are not empty, the second is not in
the write buffer, and it is still `v₁` unless the first is used up. -/
structure Lists (files : ℕ → Bytes) (v₁ : Iovec) (c : HttpConn) : Prop where
  within0 : c.iov0.Within (c.mem files)
  within1 : c.iov1.Within (c.mem files)
  count_le : c.iovCount ≤ 2
  covers0 : c.iov0.len = 0 ∨ 1 ≤ c.iovCount
  covers1 : c.iov1.len = 0 ∨ 2 ≤ c.iovCount
  mapped : c.iov1.len = 0 ∨ c.iov1.block ≠ .writeBuf
  len_lt : c.iov1.len < 2 ^ 64
  first : c.iov1 = v₁ ∨ c.iov0.len = 0

/-- What the first entry describes is what is readable in the write buffer, by its length. -/
def Backed (c : HttpConn) : Prop :=
  c.iov0.len = 0 ∨ c.writeBuf.Ok ∧ c.writeBuf.readable.length = c.iov0.len

theorem mem_of_ne {b : Block} (hb : b ≠ .writeBuf) : c'.mem files b = c.mem files b := by
  cases b with
  | writeBuf => exact absurd rfl hb
  | mapping addr => rfl
  | wild addr => rfl

/-- Outside the write buffer, an entry of one connection is as good in another. -/
theorem within_of_ne {v : Iovec} (hv : v.block ≠ .writeBuf) (h : v.Within (c.mem files)) :
    v.Within (c'.mem files) := by
  rwa [Span.Within, mem_of_ne (c := c) hv]

theorem read_of_ne {v : Iovec} (hv : v.block ≠ .writeBuf) :
    v.read (c'.mem files) = v.read (c.mem files) := Span.read_congr (.inr (mem_of_ne hv))

theorem mem_of_buf (h : c'.writeBuf.buf = c.writeBuf.buf) : c'.mem files = c.mem files := by
  ext1 b
  cases b with
  | writeBuf => exact h
  | mapping addr => rfl
  | wild addr => rfl

namespace Lists

theorem within (h : Lists files v₁ c) : ∀ v ∈ [c.iov0, c.iov1], v.Within (c.mem files) := by
  intro v hv
  rcases List.mem_pair.mp hv with rfl | rfl
  · exact h.within0
  · exact h.within1

theorem length_rest (h : Lists files v₁ c) :
    (c.rest files).length = c.iov0.len + c.iov1.len := by
  rw [rest, Span.length_gather h.within]
  rfl

/-- The entries that `writev` is not given are empty. -/
theorem gather_iov (h : Lists files v₁ c) :
    Span.gather (c.mem files) c.iov = c.rest files ∧
      Span.total c.iov = c.iov0.len + c.iov1.len := by
  have h0 := h.covers0
  have h1 := h.covers1
  obtain hc | hc | hc : c.iovCount = 0 ∨ c.iovCount = 1 ∨ c.iovCount = 2 := by
    have := h.count_le
    omega
  · have hz0 : c.iov0.len = 0 := by omega
    have hz1 : c.iov1.len = 0 := by omega
    simp [iov, hc, rest, Span.read_of_len_eq_zero, hz0, hz1]
  · have hz1 : c.iov1.len = 0 := by omega
    simp [iov, hc, rest, Span.read_of_len_eq_zero, hz1]
  · simp [iov, hc, rest]

theorem within_iov (h : Lists files v₁ c) : ∀ v ∈ c.iov, v.Within (c.mem files) :=
  fun v hv => h.within v (List.mem_of_mem_take hv)

/-- **The straddling branch**: the first entry is used up, and part of the second. -/
theorem took_second (h : Lists files v₁ c) (abi : Abi Members) {l : ℕ} (hlt : c.iov0.len < l)
    (hl : l ≤ c.iov0.len + c.iov1.len) :
    ∃ c', c.took abi l = .ok c' ∧ Lists files v₁ c' ∧ c'.rest files = (c.rest files).drop l ∧
      c'.iov0.len = 0 ∧ c'.fd = c.fd := by
  have hsub : Word.sub c.iov1.len (l - c.iov0.len) = c.iov1.len - (l - c.iov0.len) :=
    Word.sub_of_le (by omega) h.len_lt
  have hblock : (c.iov1.drop (l - c.iov0.len)).block ≠ .writeBuf := h.mapped.resolve_left (by omega)
  have hcovers := h.covers1
  have hlen := h.len_lt
  have htook : c.took abi l = .ok { c with
      iov1 := c.iov1.drop (l - c.iov0.len)
      toMembers := c.writeBuf.retrieveAll abi c.toMembers
      iov0 := ⟨c.iov0.block, c.iov0.offset, 0⟩ } := by
    simp only [HttpConn.took, if_pos hlt, hsub, pure_eq_ok, Span.drop]
  refine ⟨_, htook, ?_, ?_, rfl, rfl⟩
  · refine ⟨.inl rfl, within_of_ne hblock (h.within1.drop _), h.count_le, .inl rfl, ?_,
      .inr hblock, ?_, .inr rfl⟩
    · simp only [Span.drop]
      omega
    · simp only [Span.drop]
      omega
  · have hdrop : (c.rest files).drop l = (c.iov1.drop (l - c.iov0.len)).read (c.mem files) := by
      rw [rest, ← Span.gather_consume h.within]
      simp only [Span.consume, Span.gather_cons, Span.gather_nil, List.append_nil]
      rw [Span.read_of_len_eq_zero (by simp only [Span.drop]; omega), List.nil_append]
    rw [hdrop, rest, Span.gather_cons, Span.read_of_len_eq_zero rfl, List.nil_append,
      Span.gather_cons, Span.gather_nil, List.append_nil]
    exact read_of_ne hblock

/-- **The other branch**: a part of the first entry, retrieved from the write buffer. -/
theorem took_first (h : Lists files v₁ c) (abi : Abi Members) {l : ℕ} (hpos : 0 < l)
    (hl : l ≤ c.iov0.len) {b : Buffer} (hret : c.writeBuf.retrieve l = .ok b)
    (hbuf : b.buf = c.writeBuf.buf) :
    ∃ c', c.took abi l = .ok c' ∧ Lists files v₁ c' ∧ c'.rest files = (c.rest files).drop l ∧
      c'.iov0.len = c.iov0.len - l ∧ c'.writeBuf = b ∧ c'.fd = c.fd := by
  have hcovers := h.covers0
  have hfirst : c.iov1 = v₁ := h.first.resolve_right (by omega)
  have htook : c.took abi l = .ok { c with iov0 := c.iov0.drop l, writeBuf := b } := by
    rw [HttpConn.took, if_neg (by omega), hret, ok_bind, pure_eq_ok, Span.drop]
  refine ⟨_, htook, ?_, ?_, rfl, rfl, rfl⟩
  · refine ⟨?_, ?_, h.count_le, ?_, h.covers1, h.mapped, h.len_lt, .inl hfirst⟩
    · rw [mem_of_buf (c := c) hbuf]
      exact h.within0.drop l
    · rw [mem_of_buf (c := c) hbuf]
      exact h.within1
    · simp only
      omega
  · have hkeep : c.iov1.drop (l - c.iov0.len) = c.iov1 := by
      rw [Nat.sub_eq_zero_of_le hl]
      rfl
    rw [rest, mem_of_buf (c := c) hbuf, rest, ← Span.gather_consume h.within]
    rw [Span.consume, Span.consume, Span.consume, hkeep]

/-- **What `writev` took is what the gather list loses**, unless the retrieval's assertion fails,
which takes a write buffer that holds something else. -/
theorem took (h : Lists files v₁ c) (abi : Abi Members) {l : ℕ} (hpos : 0 < l)
    (hl : l ≤ c.iov0.len + c.iov1.len) :
    (∃ c', c.took abi l = .ok c' ∧ Lists files v₁ c' ∧ c'.rest files = (c.rest files).drop l ∧
      c'.fd = c.fd ∧ (c.Backed → c'.Backed)) ∨
    c.took abi l = .error (.assertion "len <= getReadableBytes()") ∧ ¬ c.Backed := by
  by_cases hlt : c.iov0.len < l
  · obtain ⟨c', he, hlists, hrest, hlen, hfd⟩ := h.took_second abi hlt hl
    exact .inl ⟨c', he, hlists, hrest, hfd, fun _ => .inl hlen⟩
  · obtain ⟨b, hret, hbuf⟩ | hret := c.writeBuf.retrieve_cases l
    · obtain ⟨c', he, hlists, hrest, hlen, hb, hfd⟩ := h.took_first abi hpos (by omega) hret hbuf
      refine .inl ⟨c', he, hlists, hrest, hfd, fun hback => .inr ?_⟩
      obtain ⟨hok, hread⟩ := hback.resolve_left (by omega)
      obtain rfl : c.writeBuf.advance l = b := by
        simpa [hok.retrieve_eq (n := l) (by omega)] using hret
      rw [hb, hlen, Buffer.readable_advance, List.length_drop, hread]
      exact ⟨hok.advance (by omega), rfl⟩
    · refine .inr ⟨by rw [HttpConn.took, if_neg hlt, hret, error_bind], fun hback => ?_⟩
      obtain ⟨hok, hread⟩ := hback.resolve_left (by omega)
      rw [hok.retrieve_eq (by omega)] at hret
      cases hret

end Lists

/-! ## One pass -/

/-- A `writev` sends a prefix of the bytes described. -/
theorem Lists.writev (h : Lists files v₁ s.conn) :
    writev files io s = .ok
      (if (io s.calls).ret ≤ 0 then (io s.calls).ret
        else (min (io s.calls).ret.toNat (s.conn.iov0.len + s.conn.iov1.len) : ℕ),
      { s with
        sent := s.sent ++ (s.conn.rest files).take
          (min (io s.calls).ret.toNat (s.conn.iov0.len + s.conn.iov1.len))
        calls := s.calls + 1 }) := by
  rw [HttpConn.writev, if_pos ⟨h.count_le, h.within_iov⟩, h.gather_iov.1, h.gather_iov.2,
    pure_eq_ok]

/-- **A pass that sends nothing** leaves the loop. -/
theorem Lists.writePass_stop (h : Lists files v₁ s.conn)
    (hstop : (io s.calls).ret ≤ 0 ∨ s.conn.iov0.len + s.conn.iov1.len = 0) :
    writePass abi files isET io s = .ok (.exit (min (io s.calls).ret 0,
      { s with calls := s.calls + 1, saveErrno := (io s.calls).errno })) := by
  have hn : min (io s.calls).ret.toNat (s.conn.iov0.len + s.conn.iov1.len) = 0 := by omega
  have hlen : (if (io s.calls).ret ≤ 0 then (io s.calls).ret else ((0 : ℕ) : ℤ))
      = min (io s.calls).ret 0 := by
    split <;> omega
  rw [writePass, h.writev, hn, hlen, ok_bind, List.take_zero, List.append_nil]
  exact if_pos (by omega)

/-- **A pass that sends something.** -/
theorem Lists.writePass_took (h : Lists files v₁ s.conn) {n : ℕ}
    (hn : min (io s.calls).ret.toNat (s.conn.iov0.len + s.conn.iov1.len) = n) (hpos : 0 < n) :
    writePass abi files isET io s = (do
      let conn ← s.conn.took abi n
      let s' := { s with
        conn, sent := s.sent ++ (s.conn.rest files).take n, calls := s.calls + 1 }
      if isET ∨ 10240 < conn.getBytesToWrite then return .next s' else return .exit (n, s')) := by
  have hlen : (if (io s.calls).ret ≤ 0 then (io s.calls).ret else (n : ℤ)) = n :=
    if_neg (by omega)
  have hgo : ¬ (n : ℤ) ≤ 0 := by omega
  have hne : ¬ (s.conn.iov0.len = 0 ∧ s.conn.iov1.len = 0) := by omega
  rw [writePass, h.writev, hn, hlen, ok_bind]
  simp only [if_neg hgo, if_neg hne, Int.toNat_natCast]

/-! ## The loop ends -/

theorem total_iov_le (c : HttpConn) : Span.total c.iov ≤ c.iov0.len + c.iov1.len := by
  obtain hc | hc | ⟨n, hc⟩ : c.iovCount = 0 ∨ c.iovCount = 1 ∨ ∃ n, c.iovCount = n + 2 := by
    rcases c.iovCount with _ | _ | n <;> simp
  · simp [iov, hc]
  · simp [iov, hc]
  · simp [iov, hc]

theorem writev_cases {len : ℤ} (h : writev files io s = .ok (len, s')) :
    s'.conn = s.conn ∧ len.toNat ≤ s.conn.iov0.len + s.conn.iov1.len := by
  rw [writev] at h
  split at h
  · obtain ⟨rfl, rfl⟩ := Prod.mk.inj (Except.ok.inj h)
    refine ⟨rfl, ?_⟩
    have := total_iov_le s.conn
    split <;> omega
  · cases h

/-- Whatever `writev` took, there is so much less to send. -/
theorem took_lt {l : ℕ} (hpos : 0 < l) (hl : l ≤ c.iov0.len + c.iov1.len)
    (h : c.took abi l = .ok c') :
    c'.iov0.len + c'.iov1.len < c.iov0.len + c.iov1.len := by
  rw [took] at h
  split at h
  · obtain rfl := Except.ok.inj h
    simp only [Word.sub]
    omega
  · obtain ⟨b, -, h⟩ := bind_eq_ok.mp h
    obtain rfl := Except.ok.inj h
    simp only
    omega

theorem took_ne_running {l : ℕ} : c.took abi l ≠ .error .running := by
  intro h
  rw [took] at h
  split at h
  · cases h
  · rcases bind_eq_error.mp h with h | ⟨b, -, h⟩
    · obtain ⟨b, he, -⟩ | he := c.writeBuf.retrieve_cases l
      · cases he.symm.trans h
      · cases he.symm.trans h
    · cases h

/-- **`write` always ends**, in whatever state it is called and however the socket meets it. -/
theorem write_ne_running (abi : Abi Members) (files : ℕ → Bytes) (isET : Bool) (io : ℕ → Writev)
    (s : Sending) : write abi files isET io s ≠ .error .running := by
  refine Loop.run_total (I := fun _ => True) (v := fun s => s.conn.iov0.len + s.conn.iov1.len)
    (Q := fun out => out ≠ .error Fault.running) (fun t _ => ?_) _ s trivial (Nat.lt_succ_self _)
  rcases hw : writev files io t with e | ⟨len, t'⟩
  · have hfault : e = .outOfBounds := by
      rw [writev] at hw
      split at hw
      · cases hw
      · exact (Except.error.inj hw).symm
    simp [writePass, hw, hfault, Loop.Sound]
  · obtain ⟨hconn, hlen⟩ := writev_cases hw
    rw [writePass, hw, ok_bind]
    dsimp only
    split
    · simp [Loop.Sound]
    · next hpos =>
      split
      · simp [Loop.Sound]
      · rcases ht : t'.conn.took abi len.toNat with e | c'
        · simp only [error_bind, Loop.Sound]
          exact fun h => took_ne_running (ht.trans (congrArg _ (Except.error.inj h)))
        · have hlt := took_lt (by omega) (hconn ▸ hlen) ht
          rw [ok_bind]
          split
          · exact ⟨trivial, hconn ▸ hlt⟩
          · simp [Loop.Sound]

/-! ## What `write` keeps -/

/-- **The response on its way**: what has been sent and what the gather list describes are `R`.  If
`p` holds, the write buffer backs the first entry. -/
structure Carries (files : ℕ → Bytes) (v₁ : Iovec) (R : Bytes) (p : Prop) (s : Sending) : Prop where
  lists : Lists files v₁ s.conn
  whole : s.sent ++ s.conn.rest files = R
  backed : p → s.conn.Backed

/-- A call ends with the response still whole, or with the failed assertion of a retrieval, which
`p` rules out. -/
def Ends (files : ℕ → Bytes) (v₁ : Iovec) (R : Bytes) (p : Prop) : Exec (ℤ × Sending) → Prop
  | .ok (_, s) => Carries files v₁ R p s
  | .error e => e = .assertion "len <= getReadableBytes()" ∧ ¬ p

namespace Carries

variable {R : Bytes} {p : Prop}

/-- **What `writev` took it has sent**, and there is so much less to send. -/
theorem took (h : Carries files v₁ R p s) (abi : Abi Members) {n : ℕ} (hpos : 0 < n)
    (hn : n ≤ s.conn.iov0.len + s.conn.iov1.len) :
    (∃ c', s.conn.took abi n = .ok c' ∧ c'.fd = s.conn.fd ∧
      c'.iov0.len + c'.iov1.len = s.conn.iov0.len + s.conn.iov1.len - n ∧
      Carries files v₁ R p { s with
        conn := c', sent := s.sent ++ (s.conn.rest files).take n, calls := s.calls + 1 }) ∨
    s.conn.took abi n = .error (.assertion "len <= getReadableBytes()") ∧ ¬ p := by
  obtain ⟨c', he, hlists, hrest, hfd, hback⟩ | ⟨he, hback⟩ := h.lists.took abi hpos hn
  · have hlen := hlists.length_rest
    rw [hrest, List.length_drop, h.lists.length_rest] at hlen
    refine .inl ⟨c', he, hfd, hlen.symm, hlists, ?_, fun hp => hback (h.backed hp)⟩
    simp only [hrest]
    rw [List.append_assoc, List.take_append_drop, h.whole]
  · exact .inr ⟨he, fun hp => hback (h.backed hp)⟩

/-- **A pass keeps the response whole**, and going round leaves less to send. -/
theorem writePass_sound (h : Carries files v₁ R p s) (abi : Abi Members) (isET : Bool)
    (io : ℕ → Writev) :
    Loop.Sound (Carries files v₁ R p) (fun s => s.conn.iov0.len + s.conn.iov1.len)
      (Ends files v₁ R p) (s.conn.iov0.len + s.conn.iov1.len)
      (writePass abi files isET io s) := by
  by_cases hstop : (io s.calls).ret ≤ 0 ∨ s.conn.iov0.len + s.conn.iov1.len = 0
  · rw [h.lists.writePass_stop hstop]
    exact ⟨h.lists, h.whole, h.backed⟩
  · rw [h.lists.writePass_took rfl (by omega)]
    generalize hn : min (io s.calls).ret.toNat (s.conn.iov0.len + s.conn.iov1.len) = n
    obtain ⟨c', he, -, hlen, hcarries⟩ | ⟨he, hp⟩ := h.took abi (n := n) (by omega) (by omega)
    · rw [he, ok_bind]
      simp only [pure_eq_ok]
      split
      · exact ⟨hcarries, by simp only [hlen]; omega⟩
      · exact hcarries
    · rw [he, error_bind]
      exact ⟨rfl, hp⟩

/-- **Every call ends, and the response is whole when it does.** -/
theorem write (h : Carries files v₁ R p s) (abi : Abi Members) (isET : Bool) (io : ℕ → Writev) :
    Ends files v₁ R p (write abi files isET io s) :=
  Loop.run_total (I := Carries files v₁ R p) (fun _ hs => hs.writePass_sound abi isET io) _ s h
    (Nat.lt_succ_self _)

/-- The response is whole at every pass. -/
theorem heads (h : Carries files v₁ R p s)
    (hhead : Loop.Heads (writePass abi files isET io) s s') : Carries files v₁ R p s' := by
  refine hhead.invariant (fun t t' ht he => ?_) h
  have hsound := ht.writePass_sound abi isET io
  rw [he] at hsound
  exact hsound.1

/-- There is something to write exactly while something has not been sent. -/
theorem getBytesToWrite_eq_zero_iff (h : Carries files v₁ R p s) (hR : R.length < 2 ^ 31) :
    s.conn.getBytesToWrite = 0 ↔ s.sent = R := by
  have hlen := congrArg List.length h.whole
  rw [List.length_append, h.lists.length_rest] at hlen
  rw [getBytesToWrite, Word.add_of_lt (by omega), Word.int32_eq_zero_iff (by omega), ← h.whole,
    List.self_eq_append_right, ← List.length_eq_zero_iff, h.lists.length_rest]

end Carries

/-- The connection's gather list describes the head `H` and the file `F`, and `_iov_count` covers
the entries that are not empty. -/
structure Describes (files : ℕ → Bytes) (H F : Bytes) (c : HttpConn) : Prop where
  within0 : c.iov0.Within (c.mem files)
  within1 : c.iov1.Within (c.mem files)
  head : c.iov0.read (c.mem files) = H
  file : c.iov1.read (c.mem files) = F
  count_le : c.iovCount ≤ 2
  covers0 : H ≠ [] → 1 ≤ c.iovCount
  covers1 : F ≠ [] → 2 ≤ c.iovCount
  mapped : F ≠ [] → c.iov1.block ≠ .writeBuf

theorem Describes.carries {H F : Bytes} (h : Describes files H F c) (hF : F.length < 2 ^ 64) :
    Carries files c.iov1 (H ++ F) (c.writeBuf.Ok ∧ c.writeBuf.readable = H) ⟨c, [], 0, 0⟩ := by
  have hlen0 := h.within0.length_read
  have hlen1 := h.within1.length_read
  rw [h.head] at hlen0
  rw [h.file] at hlen1
  have hnil0 : c.iov0.len ≠ 0 → H ≠ [] := fun h0 hH => h0 (by rw [← hlen0, hH, List.length_nil])
  have hnil1 : c.iov1.len ≠ 0 → F ≠ [] := fun h0 hF => h0 (by rw [← hlen1, hF, List.length_nil])
  refine ⟨?_, ?_, ?_⟩
  · exact
      { within0 := h.within0
        within1 := h.within1
        count_le := h.count_le
        covers0 := or_iff_not_imp_left.mpr fun h0 => h.covers0 (hnil0 h0)
        covers1 := or_iff_not_imp_left.mpr fun h0 => h.covers1 (hnil1 h0)
        mapped := or_iff_not_imp_left.mpr fun h0 => h.mapped (hnil1 h0)
        len_lt := hlen1 ▸ hF
        first := .inl rfl }
  · simp [rest, h.head, h.file]
  · exact fun hback => .inr ⟨hback.1, by rw [hback.2, hlen0]⟩

/-- Calls of `write`, each in its own mode and with its own socket, from a connection on. -/
def calls (abi : Abi Members) (files : ℕ → Bytes) (c : HttpConn) :
    Machine Fault Sending (Bool × (ℕ → Writev)) where
  init s := s = ⟨c, [], 0, 0⟩
  legal _ _ := True
  exec s op := (write abi files op.1 op.2 s).map Prod.snd

theorem Carries.reach {R : Bytes} {p : Prop} (h : Carries files v₁ R p ⟨c, [], 0, 0⟩)
    (hs : (calls abi files c).Reach s) : Carries files v₁ R p s := by
  refine hs.invariant (fun s hinit => hinit ▸ h) fun s op s' hs _ he => ?_
  have hends := hs.write abi op.1 op.2
  rcases hw : HttpConn.write abi files op.1 op.2 s with e | ⟨len, s''⟩
  · simp [calls, hw, Except.map] at he
  · obtain rfl : s'' = s' := by simpa [calls, hw, Except.map] using he
    rwa [hw] at hends

/-- **No byte of a response is lost, duplicated or reordered**, over any sequence of calls, in
either mode, and however the socket meets each `writev`. -/
theorem write_lossless {abi : Abi Members} {files : ℕ → Bytes} {H F : Bytes} {c : HttpConn}
    (hc : Describes files H F c) (hF : F.length < 2 ^ 64) {s : Sending}
    (hs : (calls abi files c).Reach s) (isET : Bool) (io : ℕ → Writev) :
    (∀ s', Loop.Heads (writePass abi files isET io) s s' →
      s'.sent ++ s'.conn.rest files = H ++ F ∧
      (H.length + F.length < 2 ^ 31 → (s'.conn.getBytesToWrite = 0 ↔ s'.sent = H ++ F)) ∧
      (s'.conn.iov1 ≠ c.iov1 → s'.conn.iov0.len = 0)) ∧
    (∀ e, write abi files isET io s = .error e → e = .assertion "len <= getReadableBytes()") ∧
    (c.writeBuf.Ok → c.writeBuf.readable = H →
      ∃ len s', write abi files isET io s = .ok (len, s')) := by
  have h := (hc.carries hF).reach hs
  refine ⟨fun s' hhead => ?_, fun e he => ?_, fun hok hread => ?_⟩
  · have h' := h.heads hhead
    refine ⟨h'.whole, fun hlen => h'.getBytesToWrite_eq_zero_iff ?_, h'.lists.first.resolve_left⟩
    rwa [List.length_append]
  · have hends := h.write abi isET io
    rw [he] at hends
    exact hends.1
  · have hends := h.write abi isET io
    rcases hw : write abi files isET io s with e | ⟨len, s'⟩
    · rw [hw] at hends
      exact absurd ⟨hok, hread⟩ hends.2
    · exact ⟨len, s', rfl⟩

/-- One `writev` is all of a call, in a mode that does not go round. -/
theorem write_once (abi : Abi Members) (io : ℕ → Writev) (h : Lists files v₁ c) {n : ℕ}
    (hn : min (io 0).ret.toNat (c.iov0.len + c.iov1.len) = n) (hpos : 0 < n)
    (htook : c.took abi n = .ok c') (hfew : ¬ 10240 < c'.getBytesToWrite) :
    write abi files false io ⟨c, [], 0, 0⟩ = .ok (n, ⟨c', (c.rest files).take n, 1, 0⟩) := by
  have hpass := @Lists.writePass_took files abi false io v₁ ⟨c, [], 0, 0⟩ h n hn hpos
  have hstop : ¬ (false = true ∨ 10240 < c'.getBytesToWrite) :=
    not_or.mpr ⟨Bool.false_ne_true, hfew⟩
  rw [htook, ok_bind, if_neg hstop] at hpass
  exact Loop.run_exit hpass _

/-- A head of three bytes before a page of two. -/
def page : HttpConn :=
  { new ⟨.writeBuf, 0, 3⟩ ⟨.mapping 4096, 0, 2⟩ .requestLine with
    writeBuf := ⟨str "abc" ++ List.replicate 1021 0, 3, 0⟩
    iovCount := 2 }

/-- The page after a call that took one byte more than the head. -/
def pageStraddled : Sending :=
  { conn := { page with
      writeBuf := .new 0, iov0 := ⟨.writeBuf, 0, 0⟩, iov1 := ⟨.mapping 4096, 1, 1⟩ }
    sent := str "abcd"
    calls := 1
    saveErrno := 0 }

theorem describes_page : Describes (fun _ => str "de") (str "abc") (str "de") page :=
  ⟨by decide +kernel, by decide, by decide +kernel, by decide, by decide, by decide, by decide,
    by decide⟩

theorem write_lossless_page :
    pageStraddled.sent ++ pageStraddled.conn.rest (fun _ => str "de") = str "abc" ++ str "de" := by
  have hsent : (page.rest fun _ => str "de").take 4 = str "abcd" := by decide +kernel
  have htook : page.took ⟨fun _ m => { m with writeBuf := .new 0 }⟩ 4
      = .ok pageStraddled.conn := rfl
  have hwrite := write_once _ (fun _ => ⟨4, 0⟩) (describes_page.carries (by decide)).lists
    (n := 4) rfl (by decide) htook (by decide)
  rw [hsent] at hwrite
  have hcall : (calls ⟨fun _ m => { m with writeBuf := .new 0 }⟩ (fun _ => str "de") page).exec
      ⟨page, [], 0, 0⟩ (false, fun _ => ⟨4, 0⟩) = .ok pageStraddled := by
    unfold calls
    dsimp only
    rw [hwrite]
    rfl
  exact ((write_lossless describes_page (by decide) (.step (.init rfl) trivial hcall) true
    (fun _ => ⟨-1, 11⟩)).1 _ .refl).1

end HttpConn

end WebServer
