import WebServer.Buffer.Model

/-!
# Buffer/Cursors — what each `Buffer` operation does while its cursors are in order

`Ok` is the invariant: read position ≤ write position ≤ size.  Under it `readable` is the bytes
between the cursors, and each operation has one lemma saying that it does not fault, keeps `Ok`,
and what it makes of `readable`.  The sums stay below the `size_t` limit by hypothesis.
-/

namespace WebServer

namespace Buffer

/-- The cursors are in order and inside the vector. -/
structure Ok (b : Buffer) : Prop where
  read_le : b.readPos ≤ b.writePos
  write_le : b.writePos ≤ b.buf.length
  size_lt : b.buf.length < 2 ^ 64

/-- The bytes between the cursors. -/
def readable (b : Buffer) : Bytes := (b.buf.drop b.readPos).take (b.writePos - b.readPos)

variable {b b' : Buffer}

theorem new_ok {n : ℕ} (hn : n < 2 ^ 64) : (new n).Ok :=
  ⟨le_rfl, Nat.zero_le _, by simpa [new] using hn⟩

@[simp] theorem readable_new (n : ℕ) : (new n).readable = [] := by simp [readable, new]

namespace Ok

theorem length_readable (h : b.Ok) : b.readable.length = b.writePos - b.readPos := by
  have := h.read_le
  have := h.write_le
  simp only [readable, List.length_take, List.length_drop]
  omega

theorem getReadableBytes_eq (h : b.Ok) : b.getReadableBytes = b.readable.length := by
  have := h.write_le
  have := h.size_lt
  rw [h.length_readable, getReadableBytes, Word.sub_of_le h.read_le (by omega)]

theorem getWritableBytes_eq (h : b.Ok) : b.getWritableBytes = b.buf.length - b.writePos :=
  Word.sub_of_le h.write_le h.size_lt

theorem writePos_eq (h : b.Ok) : b.writePos = b.readPos + b.readable.length := by
  have := h.read_le
  rw [h.length_readable]
  omega

/-- Bytes between the cursors are bytes in the vector. -/
theorem buf_ne_nil (h : b.Ok) (hr : b.readable ≠ []) : b.buf ≠ [] := by
  intro hb
  have := List.length_pos_iff.mpr hr
  have := h.length_readable
  have := h.write_le
  simp only [hb, List.length_nil] at *
  omega

end Ok

/-! ## Pointers -/

theorem getReadPos_eq (hb : b.buf ≠ []) : b.getReadPos = .ok b.readPos := by
  simp [getReadPos, beginCharPtr, hb]

theorem getWritePos_eq (hb : b.buf ≠ []) : b.getWritePos = .ok b.writePos := by
  simp [getWritePos, beginCharPtr, hb]

/-- Only a vector that is not empty has a write position. -/
theorem of_getWritePos {p : ℕ} (h : b.getWritePos = .ok p) : b.buf ≠ [] ∧ b.writePos = p := by
  obtain ⟨q, hq, -⟩ := bind_eq_ok.mp h
  obtain ⟨u, hassert, -⟩ := bind_eq_ok.mp hq
  have hb := assert_eq_ok hassert
  exact ⟨hb, Except.ok.inj ((getWritePos_eq hb).symm.trans h)⟩

theorem load_eq {p q : ℕ} (hpq : p ≤ q) (hq : q ≤ b.buf.length) :
    b.load p q = .ok ((b.buf.drop p).take (q - p)) := if_pos ⟨hpq, hq⟩

/-- Loading a prefix of the readable bytes. -/
theorem Ok.load_prefix (h : b.Ok) {n : ℕ} (hn : n ≤ b.readable.length) :
    b.load b.readPos (b.readPos + n) = .ok (b.readable.take n) := by
  have := h.length_readable
  have := h.write_le
  have := h.read_le
  rw [load_eq (Nat.le_add_right _ _) (by omega), readable, List.take_take,
    Nat.add_sub_cancel_left, Nat.min_eq_left (by omega)]

/-! ## Retrieving -/

/-- The buffer with `n` more bytes retrieved. -/
def advance (b : Buffer) (n : ℕ) : Buffer := { b with readPos := b.readPos + n }

@[simp] theorem advance_zero (b : Buffer) : b.advance 0 = b := rfl

theorem advance_advance (b : Buffer) (m n : ℕ) : (b.advance m).advance n = b.advance (m + n) := by
  simp [advance, Nat.add_assoc]

theorem readable_advance (b : Buffer) (n : ℕ) :
    (b.advance n).readable = b.readable.drop n := by
  simp only [readable, advance, List.drop_take, List.drop_drop]
  congr 1
  omega

theorem Ok.advance (h : b.Ok) {n : ℕ} (hn : n ≤ b.readable.length) : (b.advance n).Ok := by
  have := h.writePos_eq
  exact ⟨by simp only [Buffer.advance]; omega, h.write_le, h.size_lt⟩

/-- **`retrieve` moves the read position**, when its assertion holds. -/
theorem Ok.retrieve_eq (h : b.Ok) {n : ℕ} (hn : n ≤ b.readable.length) :
    b.retrieve n = .ok (b.advance n) := by
  have := h.writePos_eq
  have := h.write_le
  have := h.size_lt
  rw [retrieve, h.getReadableBytes_eq, assert_true hn, ok_bind, pure_eq_ok,
    Word.add_of_lt (by omega)]
  rfl

/-- …and otherwise the assertion fails. -/
theorem Ok.retrieve_fault (h : b.Ok) {n : ℕ} (hn : b.readable.length < n) :
    b.retrieve n = .error (.assertion "len <= getReadableBytes()") := by
  rw [retrieve, h.getReadableBytes_eq, assert_false (by omega), error_bind]

theorem retrieveUntil_eq (hb : b.buf ≠ []) (n : ℕ) :
    b.retrieveUntil (b.readPos + n) = b.retrieve n := by
  rw [retrieveUntil, getReadPos_eq hb, ok_bind, assert_true (Nat.le_add_right _ _), ok_bind,
    Nat.add_sub_cancel_left]

/-! ## Writing -/

/-- A write at the write position, of bytes that fit behind it. -/
theorem store_eq {s : Bytes} (hs : b.writePos + s.length ≤ b.buf.length) :
    b.store b.writePos s = .ok { b with
      buf := b.buf.take b.writePos ++ s ++ b.buf.drop (b.writePos + s.length) } := if_pos hs

/-- A write changes nothing but bytes inside the vector. -/
theorem store_frame {p : ℕ} {s : Bytes} (h : b.store p s = .ok b') :
    b'.buf.length = b.buf.length ∧ b'.writePos = b.writePos ∧ b'.readPos = b.readPos := by
  rw [store] at h
  split at h
  · next hle =>
    obtain rfl := Except.ok.inj h
    refine ⟨?_, rfl, rfl⟩
    simp only [List.length_append, List.length_take, List.length_drop]
    omega
  · cases h

theorem store_length {p : ℕ} {s : Bytes} (h : b.store p s = .ok b') :
    b'.buf.length = b.buf.length := (store_frame h).1

@[simp] theorem hasWritten_buf (b : Buffer) (n : ℕ) : (b.hasWritten n).buf = b.buf := rfl

@[simp] theorem hasWritten_readPos (b : Buffer) (n : ℕ) :
    (b.hasWritten n).readPos = b.readPos := rfl

/-- **Filling and `hasWritten` append**: of the bytes `s` put at the write position, the first `n`
become readable. -/
theorem Ok.fill (h : b.Ok) (hb : b.buf ≠ []) {s : Bytes} {n : ℕ} (hn : n ≤ s.length)
    (hs : b.writePos + s.length ≤ b.buf.length) :
    ∃ b', b.store b.writePos s = .ok b' ∧ (b'.hasWritten n).Ok ∧ (b'.hasWritten n).buf ≠ [] ∧
      (b'.hasWritten n).readable = b.readable ++ s.take n ∧
      (b'.hasWritten n).writePos = b.writePos + n := by
  have hr := h.read_le
  have hw := h.write_le
  have hz := h.size_lt
  refine ⟨_, store_eq hs, ?_⟩
  have hadd : Word.add b.writePos n = b.writePos + n := Word.add_of_lt (by omega)
  have hlen : (b.buf.take b.writePos ++ s ++ b.buf.drop (b.writePos + s.length)).length
      = b.buf.length := store_length (store_eq hs)
  simp only [hasWritten, hadd]
  refine ⟨⟨by simp only; omega, by simp only [hlen]; omega, by simpa only [hlen] using hz⟩, ?_, ?_,
    trivial⟩
  · rw [← List.length_pos_iff, hlen]
    exact List.length_pos_iff.mpr hb
  · have htake : (b.buf.take b.writePos).length = b.writePos := by simp [hw]
    simp only [readable]
    rw [List.append_assoc, List.drop_append_of_le_length (by omega), List.take_append,
      List.drop_take, List.take_take]
    simp only [List.length_take, List.length_drop]
    rw [Nat.min_eq_right (by omega), Nat.min_eq_left (by omega),
      show b.writePos + n - b.readPos - (b.writePos - b.readPos) = n by omega,
      List.take_append_of_le_length hn]

/-! ## Space -/

/-- The space behind the write position once `ensureWritable` has made it: what is there, with the
bytes before the read position, or a new vector's. -/
def spaceFor (b : Buffer) (len : ℕ) : ℕ :=
  if len ≤ b.buf.length - b.writePos then b.buf.length - b.writePos
  else if len ≤ b.buf.length - b.writePos + b.readPos then b.buf.length - b.writePos + b.readPos
  else len + 1

theorem le_spaceFor (b : Buffer) (len : ℕ) : len ≤ b.spaceFor len := by
  unfold spaceFor
  split_ifs <;> omega

/-- **The resizing branch**: `len + 1` bytes of space behind the same contents. -/
theorem Ok.extendSpace_resize (h : b.Ok) {len : ℕ}
    (hlt : b.buf.length - b.writePos + b.readPos < len) (hlen : b.writePos + len + 1 < 2 ^ 64) :
    ∃ b', b.extendSpace len = .ok b' ∧ b'.Ok ∧ b'.buf ≠ [] ∧ b'.readable = b.readable ∧
      b'.writePos = b.writePos ∧ b'.buf.length - b'.writePos = len + 1 := by
  have hr := h.read_le
  have hw := h.write_le
  have hz := h.size_lt
  have hsum : Word.add b.getWritableBytes b.getPrependableBytes
      = b.buf.length - b.writePos + b.readPos := by
    rw [h.getWritableBytes_eq, getPrependableBytes, Word.add_of_lt (by omega)]
  refine ⟨b.resize (b.writePos + len + 1), ?_, ?_⟩
  · have hadd : Word.add (Word.add b.writePos len) 1 = b.writePos + len + 1 := by
      rw [Word.add_of_lt (a := b.writePos) (by omega), Word.add_of_lt hlen]
    rw [extendSpace, hsum, if_pos hlt, hadd]
  · have hall : b.buf.take (b.writePos + len + 1) = b.buf := List.take_of_length_le (by omega)
    have hsize : (b.resize (b.writePos + len + 1)).buf.length = b.writePos + len + 1 := by
      simp only [resize, hall, List.length_append, List.length_replicate]
      omega
    refine ⟨⟨hr, by rw [hsize]; simp only [resize]; omega, by omega⟩, ?_, ?_, rfl, ?_⟩
    · rw [← List.length_pos_iff, hsize]
      omega
    · simp only [readable, resize, hall]
      rw [List.drop_append_of_le_length (by omega), List.take_append_of_le_length (by simp; omega)]
    · rw [hsize]
      simp only [resize]
      omega

/-- **The compacting branch**: the readable bytes slide to the front.  It needs space before the
read position, so the copy's destination lies before its source. -/
theorem Ok.extendSpace_compact (h : b.Ok) {len : ℕ} (hfull : b.buf.length - b.writePos < len)
    (hge : len ≤ b.buf.length - b.writePos + b.readPos) :
    ∃ b', b.extendSpace len = .ok b' ∧ b'.Ok ∧ b'.buf ≠ [] ∧ b'.readable = b.readable ∧
      b'.writePos ≤ b.writePos ∧
      b'.buf.length - b'.writePos = b.buf.length - b.writePos + b.readPos := by
  have hr := h.read_le
  have hw := h.write_le
  have hz := h.size_lt
  have hlen := h.length_readable
  have hsum : Word.add b.getWritableBytes b.getPrependableBytes
      = b.buf.length - b.writePos + b.readPos := by
    rw [h.getWritableBytes_eq, getPrependableBytes, Word.add_of_lt (by omega)]
  have hb : b.buf ≠ [] := by
    rw [← List.length_pos_iff]
    omega
  have hload : b.load b.readPos b.writePos = .ok b.readable := load_eq hr hw
  have hcopy : b.copy b.readPos b.writePos 0
      = .ok { b with buf := b.readable ++ b.buf.drop b.readable.length } := by
    rw [copy, hload, ok_bind, if_neg (by omega), store, if_pos (by omega)]
    simp
  refine ⟨⟨b.readable ++ b.buf.drop b.readable.length, b.readable.length, 0⟩, ?_, ?_⟩
  · rw [extendSpace, hsum, if_neg (by omega)]
    simp only [beginCharPtr, assert_true hb, ok_bind, pure_eq_ok, Nat.zero_add, hcopy,
      h.getReadableBytes_eq, Except.ok.injEq, Buffer.mk.injEq, true_and, and_true]
    exact (Word.add_of_lt (by omega)).trans (Nat.zero_add _)
  · have hsize : (b.readable ++ b.buf.drop b.readable.length).length = b.buf.length := by
      simp only [List.length_append, List.length_drop]
      omega
    refine ⟨⟨Nat.zero_le _, by simp, by simpa only [hsize] using hz⟩, ?_, ?_,
      by simp only; omega, ?_⟩
    · rw [← List.length_pos_iff, hsize]
      exact List.length_pos_iff.mpr hb
    · simp [readable]
    · simp only [hsize]
      omega

/-- **One `_extendSpace` is enough**, whichever branch it takes. -/
theorem Ok.extendSpace (h : b.Ok) {len : ℕ} (hfull : b.getWritableBytes < len)
    (hlen : b.writePos + len + 1 < 2 ^ 64) :
    ∃ b', b.extendSpace len = .ok b' ∧ b'.Ok ∧ b'.buf ≠ [] ∧ b'.readable = b.readable ∧
      b'.writePos ≤ b.writePos ∧ b'.getWritableBytes = b.spaceFor len := by
  rw [h.getWritableBytes_eq] at hfull
  rw [spaceFor, if_neg (by omega)]
  by_cases hlt : b.buf.length - b.writePos + b.readPos < len
  · obtain ⟨b', he, hok, hne, hread, hw, hspace⟩ := h.extendSpace_resize hlt hlen
    rw [if_neg (by omega), ← hspace, ← hok.getWritableBytes_eq]
    exact ⟨b', he, hok, hne, hread, le_of_eq hw, rfl⟩
  · obtain ⟨b', he, hok, hne, hread, hw, hspace⟩ := h.extendSpace_compact hfull (by omega)
    rw [if_pos (by omega), ← hspace, ← hok.getWritableBytes_eq]
    exact ⟨b', he, hok, hne, hread, hw, rfl⟩

theorem ensureWritablePass_exit {len : ℕ} (h : len ≤ b.getWritableBytes) :
    ensureWritablePass len b = .ok (.exit b) := by
  rw [ensureWritablePass, if_neg (by omega), pure_eq_ok]

theorem ensureWritablePass_next {len : ℕ} (h : b.getWritableBytes < len)
    (he : b.extendSpace len = .ok b') : ensureWritablePass len b = .ok (.next b') := by
  rw [ensureWritablePass, if_pos h, he, ok_bind, pure_eq_ok]

/-- **`ensureWritable` makes the space and keeps the contents.** -/
theorem Ok.ensureWritable (h : b.Ok) {len : ℕ} (hlen : b.writePos + len + 1 < 2 ^ 64) :
    ∃ b', b.ensureWritable len = .ok b' ∧ b'.Ok ∧ (b.buf ≠ [] ∨ 0 < len → b'.buf ≠ []) ∧
      b'.readable = b.readable ∧ b'.writePos ≤ b.writePos ∧
      b'.getWritableBytes = b.spaceFor len := by
  by_cases hfull : b.getWritableBytes < len
  · obtain ⟨b', he, hok, hne, hread, hw, hspace⟩ := h.extendSpace hfull hlen
    have hle : len ≤ b'.getWritableBytes := hspace ▸ b.le_spaceFor len
    refine ⟨b', ?_, hok, fun _ => hne, hread, hw, hspace⟩
    rw [Buffer.ensureWritable, Loop.run_next (ensureWritablePass_next hfull he),
      Loop.run_exit (ensureWritablePass_exit hle)]
  · have hle : len ≤ b.getWritableBytes := by omega
    have hspace : b.getWritableBytes = b.spaceFor len := by
      rw [h.getWritableBytes_eq] at hle ⊢
      rw [spaceFor, if_pos hle]
    refine ⟨b, Loop.run_exit (ensureWritablePass_exit hle) _, h, ?_, rfl, le_rfl, hspace⟩
    rintro (hb | hpos)
    · exact hb
    · rw [← List.length_pos_iff]
      have := h.getWritableBytes_eq
      omega

/-- **`append` appends**, and takes its bytes from the space that `ensureWritable` makes. -/
theorem Ok.append_space (h : b.Ok) {s : Bytes} (hb : b.buf ≠ [] ∨ s ≠ [])
    (hs : b.writePos + s.length + 1 < 2 ^ 64) :
    ∃ b', b.append s = .ok b' ∧ b'.Ok ∧ b'.buf ≠ [] ∧ b'.readable = b.readable ++ s ∧
      b'.writePos ≤ b.writePos + s.length ∧
      b'.getWritableBytes = b.spaceFor s.length - s.length := by
  obtain ⟨b₁, he, hok, hne, hread, hw, hspace⟩ := h.ensureWritable hs
  have hb₁ : b₁.buf ≠ [] := hne (hb.imp_right List.length_pos_iff.mpr)
  have hle := b.le_spaceFor s.length
  rw [← hspace, hok.getWritableBytes_eq] at hle
  have := hok.write_le
  obtain ⟨b₂, hstore, hok₂, hne₂, hread₂, hw₂⟩ := hok.fill hb₁ le_rfl (s := s) (by omega)
  refine ⟨b₂.hasWritten s.length, ?_, hok₂, hne₂, ?_, by omega, ?_⟩
  · rw [Buffer.append, he, ok_bind, getWritePos_eq hb₁, ok_bind, hstore, ok_bind, pure_eq_ok]
  · rw [hread₂, hread, List.take_length]
  · rw [hok₂.getWritableBytes_eq, hw₂, ← hspace, hok.getWritableBytes_eq]
    show b₂.buf.length - _ = _
    rw [store_length hstore]
    omega

theorem Ok.append (h : b.Ok) {s : Bytes} (hb : b.buf ≠ [] ∨ s ≠ [])
    (hs : b.writePos + s.length + 1 < 2 ^ 64) :
    ∃ b', b.append s = .ok b' ∧ b'.Ok ∧ b'.buf ≠ [] ∧ b'.readable = b.readable ++ s ∧
      b'.writePos ≤ b.writePos + s.length := by
  obtain ⟨b', he, hok, hne, hread, hw, -⟩ := h.append_space hb hs
  exact ⟨b', he, hok, hne, hread, hw⟩

/-! ## Any state

Whether or not the cursors are in order, two passes are all that `ensureWritable` makes. -/

theorem copy_length {first last dst : ℕ} (h : b.copy first last dst = .ok b') :
    b'.buf.length = b.buf.length := by
  obtain ⟨s, -, h⟩ := bind_eq_ok.mp h
  split at h
  · cases h
  · exact store_length h

theorem load_ne_running (first last : ℕ) : b.load first last ≠ .error .running := by
  rw [load]
  split <;> simp

theorem copy_ne_running (first last dst : ℕ) : b.copy first last dst ≠ .error .running := by
  intro h
  rcases bind_eq_error.mp h with h | ⟨s, -, h⟩
  · exact load_ne_running _ _ h
  · split at h
    · cases h
    · rw [store] at h
      split at h <;> cases h

/-- `_extendSpace` makes the space whatever state it is called in, if it does not fault. -/
theorem extendSpace_space {len : ℕ} (hlen : len + 1 < 2 ^ 64)
    (h : b.extendSpace len = .ok b') : len ≤ b'.getWritableBytes := by
  rw [extendSpace] at h
  split at h
  · obtain rfl := Except.ok.inj h
    simp only [getWritableBytes, resize, List.length_append, List.length_take,
      List.length_replicate, Word.add, Word.sub]
    omega
  · next hfull =>
    obtain ⟨p, -, h⟩ := bind_eq_ok.mp h
    obtain ⟨b₁, hcopy, h⟩ := bind_eq_ok.mp h
    obtain rfl := Except.ok.inj h
    simp only [getWritableBytes, getPrependableBytes, getReadableBytes, copy_length hcopy, Word.add,
      Word.sub] at hfull ⊢
    omega

theorem extendSpace_ne_running (len : ℕ) : b.extendSpace len ≠ .error .running := by
  intro h
  rw [extendSpace] at h
  split at h
  · cases h
  · rcases bind_eq_error.mp h with h | ⟨p, -, h⟩
    · rw [beginCharPtr] at h
      rcases bind_eq_error.mp h with h | ⟨_, -, h⟩
      · rw [assert] at h
        split at h <;> cases h
      · cases h
    · rcases bind_eq_error.mp h with h | ⟨_, -, h⟩
      · exact copy_ne_running _ _ _ h
      · cases h

/-- **The loop of `ensureWritable` never wants a third pass**, in whatever state it starts. -/
theorem ensureWritable_ne_running {len : ℕ} (hlen : len + 1 < 2 ^ 64) :
    b.ensureWritable len ≠ .error .running := by
  rw [Buffer.ensureWritable]
  by_cases hfull : b.getWritableBytes < len
  · rcases he : b.extendSpace len with e | b'
    · have hpass : ensureWritablePass len b = .error e := by
        rw [ensureWritablePass, if_pos hfull, he, error_bind]
      rw [Loop.run_error hpass]
      exact fun h => extendSpace_ne_running len (he.trans h)
    · rw [Loop.run_next (ensureWritablePass_next hfull he),
        Loop.run_exit (ensureWritablePass_exit (extendSpace_space hlen he))]
      exact fun h => by cases h
  · rw [Loop.run_exit (ensureWritablePass_exit (not_lt.mp hfull))]
    exact fun h => by cases h

end Buffer

end WebServer
