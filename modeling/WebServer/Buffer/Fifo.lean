import WebServer.Buffer.Cursors
import WebServer.Machinery.Fifo
import WebServer.Machinery.Machine

/-!
# Buffer/Fifo — a `Buffer` is a queue of bytes

A run of a `Buffer` appends, makes space, fills space directly, and retrieves.  `machine` runs the
buffer beside the queue it stands for, and `buffer_refines_fifo` says that the two agree at every
point: whatever growing and compacting went on, the readable bytes are what was written less what
was retrieved.
-/

namespace WebServer

namespace Buffer

/-- The operations of a run.  `fill s len` puts `s` at the write position and calls
`hasWritten(len)`. -/
inductive Op where
  | append (s : Bytes)
  | ensureWritable (len : ℕ)
  | fill (s : Bytes) (len : ℕ)
  | retrieve (len : ℕ)
  | retrieveUntil (pos : ℕ)

namespace Op

/-- What the caller of an operation has to see to. -/
def Legal (b : Buffer) : Op → Prop
  | append s => b.writePos + s.length + 1 < 2 ^ 64
  | ensureWritable len => b.writePos + len + 1 < 2 ^ 64
  | fill s len => len ≤ s.length ∧ s.length ≤ b.getWritableBytes
  | retrieve len => len ≤ b.getReadableBytes
  | retrieveUntil pos => b.readPos ≤ pos ∧ pos ≤ b.writePos

instance (b : Buffer) : DecidablePred (Legal b)
  | append s => inferInstanceAs (Decidable (b.writePos + s.length + 1 < 2 ^ 64))
  | ensureWritable len => inferInstanceAs (Decidable (b.writePos + len + 1 < 2 ^ 64))
  | fill s len => inferInstanceAs (Decidable (len ≤ s.length ∧ s.length ≤ b.getWritableBytes))
  | retrieve len => inferInstanceAs (Decidable (len ≤ b.getReadableBytes))
  | retrieveUntil pos => inferInstanceAs (Decidable (b.readPos ≤ pos ∧ pos ≤ b.writePos))

def exec (b : Buffer) : Op → Exec Buffer
  | append s => b.append s
  | ensureWritable len => b.ensureWritable len
  | fill s len => do
    let p ← b.getWritePos
    let b ← b.store p s
    return b.hasWritten len
  | retrieve len => b.retrieve len
  | retrieveUntil pos => b.retrieveUntil pos

/-- What an operation on the buffer `b` is to the queue. -/
def spec (b : Buffer) (q : Fifo Byte) : Op → Fifo Byte
  | append s => q.push s
  | ensureWritable _ => q
  | fill s len => q.push (s.take len)
  | retrieve len => q.pop len
  | retrieveUntil pos => q.pop (pos - b.readPos)

end Op

/-- A buffer constructed with `initSize` bytes, run beside the queue it stands for. -/
def machine (initSize : ℕ) : Machine Fault (Fifo Byte × Buffer) Op where
  init s := s = (Fifo.empty, Buffer.new initSize)
  legal s op := op.Legal s.2
  exec s op := do
    let b ← op.exec s.2
    return (op.spec s.2 s.1, b)

theorem exec_machine {n : ℕ} {q : Fifo Byte} {b b' : Buffer} {op : Op} (he : op.exec b = .ok b') :
    (machine n).exec (q, b) op = .ok (op.spec b q, b') := bind_eq_ok.mpr ⟨b', he, rfl⟩

theorem reach_step {n : ℕ} {q : Fifo Byte} {b b' : Buffer} {op : Op}
    (h : (machine n).Reach (q, b)) (hl : op.Legal b) (he : op.exec b = .ok b') :
    (machine n).Reach (op.spec b q, b') := .step h hl (exec_machine he)

/-- The buffer is in order and its readable bytes are the content of the queue. -/
structure Refines (q : Fifo Byte) (b : Buffer) : Prop where
  ok : b.Ok
  buf_ne : b.buf ≠ []
  readable : b.readable = q.content

namespace Refines

variable {q : Fifo Byte} {b : Buffer}

theorem new {n : ℕ} (hpos : 0 < n) (hn : n < 2 ^ 64) : Refines Fifo.empty (Buffer.new n) where
  ok := new_ok hn
  buf_ne := by
    rw [← List.length_pos_iff]
    simpa [Buffer.new] using hpos
  readable := readable_new n

theorem retrieve (h : Refines q b) {n : ℕ} (hn : n ≤ b.readable.length) :
    b.retrieve n = .ok (b.advance n) ∧ Refines (q.pop n) (b.advance n) where
  left := h.ok.retrieve_eq hn
  right :=
    { ok := h.ok.advance hn
      buf_ne := h.buf_ne
      readable := by rw [readable_advance, h.readable, Fifo.content_pop] }

/-- **Every legal operation succeeds and keeps the refinement.** -/
theorem exec (h : Refines q b) : ∀ op : Op, op.Legal b →
    ∃ b', op.exec b = .ok b' ∧ Refines (op.spec b q) b'
  | .append s, hl => by
    obtain ⟨b', he, hok, hne, hread, -⟩ := h.ok.append (.inl h.buf_ne) hl
    exact ⟨b', he, hok, hne, by rw [hread, h.readable, Op.spec, Fifo.content_push]⟩
  | .ensureWritable len, hl => by
    obtain ⟨b', he, hok, hne, hread, -⟩ := h.ok.ensureWritable hl
    exact ⟨b', he, hok, hne (.inl h.buf_ne), hread.trans h.readable⟩
  | .fill s len, ⟨hlen, hs⟩ => by
    have := h.ok.write_le
    rw [h.ok.getWritableBytes_eq] at hs
    obtain ⟨b', he, hok, hne, hread, -⟩ := h.ok.fill h.buf_ne hlen (by omega)
    refine ⟨b'.hasWritten len, ?_, hok, hne, by rw [hread, h.readable, Op.spec, Fifo.content_push]⟩
    rw [Op.exec, getWritePos_eq h.buf_ne, ok_bind, he, ok_bind, pure_eq_ok]
  | .retrieve n, hl => ⟨_, h.retrieve (h.ok.getReadableBytes_eq ▸ hl)⟩
  | .retrieveUntil pos, ⟨hpos, hle⟩ => by
    have := h.ok.writePos_eq
    obtain ⟨n, rfl⟩ := Nat.exists_eq_add_of_le hpos
    refine ⟨b.advance n, ?_, ?_⟩
    · exact (retrieveUntil_eq h.buf_ne n).trans (h.retrieve (by omega)).1
    · rw [Op.spec, Nat.add_sub_cancel_left]
      exact (h.retrieve (by omega)).2

end Refines

/-- **The refinement is an invariant of the runs**, and no operation of a run faults. -/
theorem machine_safe {n : ℕ} (hpos : 0 < n) (hn : n < 2 ^ 64) :
    (machine n).Safe fun s => Refines s.1 s.2 where
  init s hs := hs ▸ Refines.new hpos hn
  step s op hs hl := by
    obtain ⟨b', he, hb'⟩ := hs.exec op hl
    exact ⟨_, exec_machine he, hb'⟩

/-- **Space is made in one step**: the loop of `ensureWritable` calls `_extendSpace` in its first
pass if at all, and the compacting branch only when there are bytes before the read position. -/
theorem Ok.heads_ensureWritable {b : Buffer} (h : b.Ok) {len : ℕ}
    (hlen : b.writePos + len + 1 < 2 ^ 64) {b₁ : Buffer}
    (hhead : Loop.Heads (ensureWritablePass len) b b₁) (hcall : b₁.getWritableBytes < len) :
    b₁ = b ∧ (len ≤ Word.add b₁.getWritableBytes b₁.getPrependableBytes → 0 < b₁.readPos) := by
  have hfirst : b₁ = b ∨ len ≤ b₁.getWritableBytes := by
    refine hhead.invariant (I := fun b₁ => b₁ = b ∨ len ≤ b₁.getWritableBytes) ?_ (.inl rfl)
    rintro t t' (rfl | ht) hpass
    · by_cases hfull : t.getWritableBytes < len
      · obtain ⟨b', he, -, -, -, -, hspace⟩ := h.extendSpace hfull hlen
        rw [ensureWritablePass_next hfull he] at hpass
        obtain rfl := Loop.Pass.next.inj (Except.ok.inj hpass)
        exact .inr (hspace ▸ t.le_spaceFor len)
      · rw [ensureWritablePass_exit (by omega)] at hpass
        exact absurd (Except.ok.inj hpass) (by simp)
    · rw [ensureWritablePass_exit ht] at hpass
      exact absurd (Except.ok.inj hpass) (by simp)
  obtain rfl : b₁ = b := hfirst.resolve_right (by omega)
  refine ⟨rfl, fun hsum => ?_⟩
  have := h.read_le
  have := h.write_le
  have := h.size_lt
  rw [h.getWritableBytes_eq] at hcall hsum
  rw [getPrependableBytes, Word.add_of_lt (by omega)] at hsum
  omega

/-- **A `Buffer` refines a byte queue**, from its constructor on and through every legal run. -/
theorem buffer_refines_fifo {initSize : ℕ} (hpos : 0 < initSize) (hint : initSize < 2 ^ 31)
    {q : Fifo Byte} {b : Buffer} (h : (machine initSize).Reach (q, b)) :
    (b.readPos ≤ b.writePos ∧ b.writePos ≤ b.buf.length) ∧
    b.readable = q.written.drop q.retrieved ∧
    (∀ op : Op, op.Legal b → ∃ b', op.exec b = .ok b') ∧
    ∀ len, b.writePos + len + 1 < 2 ^ 64 →
      (∃ b', b.ensureWritable len = .ok b' ∧ len ≤ b'.getWritableBytes ∧
        b'.readable = b.readable) ∧
      ∀ b₁, Loop.Heads (ensureWritablePass len) b b₁ → b₁.getWritableBytes < len →
        b₁ = b ∧ (len ≤ Word.add b₁.getWritableBytes b₁.getPrependableBytes → 0 < b₁.readPos) := by
  have hr : Refines q b := (machine_safe hpos (by omega)).reach h
  refine ⟨⟨hr.ok.read_le, hr.ok.write_le⟩, hr.readable, fun op hl => ?_, fun len hlen => ⟨?_, ?_⟩⟩
  · obtain ⟨b', he, -⟩ := hr.exec op hl
    exact ⟨b', he⟩
  · obtain ⟨b', he, -, -, hread, -, hspace⟩ := hr.ok.ensureWritable hlen
    exact ⟨b', he, hspace ▸ b.le_spaceFor len, hread⟩
  · exact fun b₁ hhead hcall => hr.ok.heads_ensureWritable hlen hhead hcall

/-- A buffer of four bytes that had to compact: `abc` in, `ab` out, `xyz` in. -/
def compacted : Fifo Byte × Buffer :=
  (((Fifo.empty.push (str "abc")).pop 2).push (str "xyz"), ⟨str "cxyz", 4, 0⟩)

theorem reach_compacted : (machine 4).Reach compacted := by
  have h₁ : (Op.append (str "abc")).exec (new 4) = .ok ⟨str "abc" ++ [0], 3, 0⟩ := by decide
  have h₂ : (Op.retrieve 2).exec ⟨str "abc" ++ [0], 3, 0⟩ = .ok ⟨str "abc" ++ [0], 3, 2⟩ := by
    decide
  have h₃ : (Op.append (str "xyz")).exec ⟨str "abc" ++ [0], 3, 2⟩ = .ok ⟨str "cxyz", 4, 0⟩ := by
    decide
  have r₁ := reach_step (.init rfl) (by decide) h₁
  have r₂ := reach_step r₁ (by decide) h₂
  exact reach_step r₂ (by decide) h₃

theorem buffer_refines_fifo_compacted :
    compacted.2.readable = compacted.1.written.drop compacted.1.retrieved ∧
      ∃ b', (Op.ensureWritable 1).exec compacted.2 = .ok b' :=
  have h := buffer_refines_fifo (by decide) (by decide) reach_compacted
  ⟨h.2.1, h.2.2.1 (.ensureWritable 1) (by decide)⟩

end Buffer

end WebServer
