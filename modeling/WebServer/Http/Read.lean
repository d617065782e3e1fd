import WebServer.Buffer.Cursors
import WebServer.Http.Conn

/-!
# Http/Read — `read` and `_readToBuf`

`_readToBuf` offers `readv` two segments: one of the read buffer's vector, from the write position
on, and an array on the stack, whose bytes are appended afterwards.  The first segment is as long as
the *readable* bytes, not as the writable ones.  `receives_iff` says when that goes well.
-/

namespace WebServer

def MAX_EXTRA_SPACE : ℕ := 65536

namespace HttpConn

/-- How the socket meets one `readv`. -/
inductive Readv where
  | fails (errno : ℤ)
  | delivers (s : Bytes)
  deriving DecidableEq, Repr

/-- `iov[0]` as the offset and the length of a segment of the read buffer's vector. -/
def readSegment (c : HttpConn) : Exec (ℕ × ℕ) := do
  let writable := c.readBuf.getReadableBytes
  let p ← c.readBuf.getWritePos
  return (p, writable)

/-- `_readToBuf`, with the value it returns and `*err_state`.  What `readv` delivers fills the first
segment before the array on the stack. -/
def readToBuf (io : Readv) (errState : ℤ) (c : HttpConn) : Exec (ℤ × ℤ × HttpConn) := do
  let (p, writable) ← c.readSegment
  match io with
  | .fails errno => return (-1, errno, c)
  | .delivers s =>
    let readBuf ← c.readBuf.store p (s.take writable)
    if s.length ≤ writable then
      return (s.length, errState, { c with readBuf := readBuf.hasWritten s.length })
    else
      let readBuf := readBuf.hasWritten writable
      let readBuf ← readBuf.append (s.drop writable)
      return (s.length, errState, { c with readBuf })

/-! ## One call -/

/-- The first segment lies inside the vector, and the bytes `s` are received: nothing else becomes
of the connection than that they are behind what was readable. -/
structure Receives (c : HttpConn) (s : Bytes) (errState : ℤ) : Prop where
  within : ∃ p len, c.readSegment = .ok (p, len) ∧ p + len ≤ c.readBuf.buf.length
  received : ∃ readBuf : Buffer, readBuf.Ok ∧ readBuf.readable = c.readBuf.readable ++ s ∧
    c.readToBuf (.delivers s) errState = .ok (s.length, errState, { c with readBuf })

variable {c : HttpConn} {s : Bytes} {errState : ℤ}

theorem readSegment_eq (hb : c.readBuf.buf ≠ []) :
    c.readSegment = .ok (c.readBuf.writePos, c.readBuf.getReadableBytes) := by
  rw [readSegment, Buffer.getWritePos_eq hb, ok_bind, pure_eq_ok]

/-- An empty vector has no write position. -/
theorem buf_ne_of_readSegment {v : ℕ × ℕ} (h : c.readSegment = .ok v) : c.readBuf.buf ≠ [] := by
  obtain ⟨p, hp, -⟩ := bind_eq_ok.mp h
  exact (Buffer.of_getWritePos hp).1

/-- A `readv` that fails leaves the connection as it is. -/
theorem readToBuf_fails (hb : c.readBuf.buf ≠ []) (errno : ℤ) :
    c.readToBuf (.fails errno) errState = .ok (-1, errno, c) := by
  rw [readToBuf, readSegment_eq hb]
  rfl

/-- **A first segment that fits is filled**, and what is left over is appended. -/
theorem readToBuf_delivers (errState : ℤ) (h : c.readBuf.Ok) (hb : c.readBuf.buf ≠ [])
    (hfit : c.readBuf.getReadableBytes ≤ c.readBuf.getWritableBytes)
    (hroom : c.readBuf.writePos + s.length + 1 < 2 ^ 64) :
    ∃ readBuf : Buffer, readBuf.Ok ∧ readBuf.readable = c.readBuf.readable ++ s ∧
      c.readToBuf (.delivers s) errState = .ok (s.length, errState, { c with readBuf }) := by
  have hw := h.write_le
  rw [h.getWritableBytes_eq] at hfit
  generalize hn : c.readBuf.getReadableBytes = n at hfit
  have htake : (s.take n).length = min n s.length := List.length_take
  obtain ⟨b, hstore, hok, hne, hread, hpos⟩ :=
    h.fill hb (le_refl (s.take n).length) (by omega)
  rw [List.take_length] at hread
  by_cases hle : s.length ≤ n
  · refine ⟨b.hasWritten s.length, ?_, ?_, ?_⟩
    · rwa [List.take_of_length_le hle] at hok
    · rwa [List.take_of_length_le hle] at hread
    · rw [readToBuf, readSegment_eq hb, ok_bind]
      simp only [hn, hstore, ok_bind, if_pos hle, pure_eq_ok]
  · have hlen : (s.take n).length = n := by omega
    rw [hlen] at hok hne hread hpos
    obtain ⟨b', happend, hok', -, hread', -⟩ := hok.append (s := s.drop n) (.inl hne) (by
      rw [hpos, List.length_drop]
      omega)
    refine ⟨b', hok', ?_, ?_⟩
    · rw [hread', hread, List.append_assoc, List.take_append_drop]
    · rw [readToBuf, readSegment_eq hb, ok_bind]
      simp only [hn, hstore, ok_bind, if_neg hle, happend, pure_eq_ok]

/-- The first segment lies inside the vector only if there is room for it. -/
theorem Receives.fits (hreceives : c.Receives s errState) (h : c.readBuf.Ok) :
    c.readBuf.buf ≠ [] ∧ c.readBuf.getReadableBytes ≤ c.readBuf.getWritableBytes := by
  obtain ⟨p, len, hseg, hwithin⟩ := hreceives.within
  have hb := buf_ne_of_readSegment hseg
  obtain ⟨rfl, rfl⟩ := Prod.mk.inj (Except.ok.inj ((readSegment_eq hb).symm.trans hseg))
  rw [h.getWritableBytes_eq]
  exact ⟨hb, by omega⟩

/-- **`_readToBuf` receives what it is sent if and only if there is room for as many bytes as are
already readable.** -/
theorem receives_iff (h : c.readBuf.Ok) (hsize : c.readBuf.buf.length < 2 ^ 63)
    (hs : s.length ≤ c.readBuf.getReadableBytes + MAX_EXTRA_SPACE) :
    c.Receives s errState ↔
      c.readBuf.buf ≠ [] ∧ c.readBuf.getReadableBytes ≤ c.readBuf.getWritableBytes := by
  refine ⟨fun hreceives => hreceives.fits h, fun ⟨hb, hfit⟩ => ?_⟩
  have hw := h.write_le
  have hlen := hfit
  rw [h.getWritableBytes_eq] at hlen
  refine ⟨⟨_, _, readSegment_eq hb, by omega⟩, readToBuf_delivers errState h hb hfit ?_⟩
  rw [MAX_EXTRA_SPACE] at hs
  omega

/-- A connection on which nothing has come in yet. -/
def idle : HttpConn := new ⟨.wild 0, 0, 0⟩ ⟨.wild 0, 0, 0⟩ .requestLine

theorem receives_iff_idle : idle.Receives (str "GET / HTTP/1.1") 0 :=
  (receives_iff (Buffer.new_ok (by decide)) (by decide +kernel) (by decide +kernel)).mpr
    (by decide +kernel)

/-- **The second read, with more than half of the vector still unparsed**: it offers 600 bytes where
424 are left. -/
theorem not_receives_again : ∃ c, idle.readToBuf (.delivers (List.replicate 600 65)) 0 =
      .ok (600, 0, c) ∧ c.readBuf.Ok ∧ c.readBuf.buf.length = 1024 ∧
    c.readSegment = .ok (600, 600) ∧ ¬ c.Receives (List.replicate 600 65) 0 := by
  have hread : (idle.readToBuf (.delivers (List.replicate 600 65)) 0).map
      (fun x => (x.1, x.2.1, x.2.2.readBuf)) =
      .ok (600, 0, ⟨List.replicate 600 65 ++ List.replicate 424 0, 600, 0⟩) := by decide +kernel
  rcases hx : idle.readToBuf (.delivers (List.replicate 600 65)) 0 with e | ⟨len, errno, c⟩
  · rw [hx] at hread
    cases hread
  · rw [hx] at hread
    obtain ⟨rfl, hrest⟩ := Prod.mk.inj (Except.ok.inj hread)
    obtain ⟨rfl, hbuf⟩ := Prod.mk.inj hrest
    dsimp only at hbuf
    have hok : c.readBuf.Ok := by
      rw [hbuf]
      exact ⟨by decide, by decide +kernel, by decide +kernel⟩
    refine ⟨c, rfl, hok, by rw [hbuf]; decide +kernel, ?_, fun hreceives => ?_⟩
    · rw [readSegment_eq (by rw [hbuf]; decide +kernel), hbuf]
      decide +kernel
    · have hfits := (hreceives.fits hok).2
      rw [hbuf] at hfits
      exact absurd hfits (by decide +kernel)

/-! ## The loop -/

/-- A connection in `read`, with the bytes it has been sent, the number of `readv`s it has met, and
`*save_errno`. -/
structure Reading where
  conn : HttpConn
  received : Bytes
  calls : ℕ
  saveErrno : ℤ

def Readv.bytes : Readv → Bytes
  | .fails _ => []
  | .delivers s => s

/-- One pass of the loop of `read`. -/
def readPass (isET : Bool) (io : ℕ → Readv) (t : Reading) :
    Exec (Loop.Pass Reading (ℤ × Reading)) := do
  let (len, saveErrno, conn) ← t.conn.readToBuf (io t.calls) t.saveErrno
  let t := ⟨conn, t.received ++ (io t.calls).bytes, t.calls + 1, saveErrno⟩
  if len ≤ 0 then return .exit (len, t)
  else if isET then return .next t else return .exit (len, t)

/-- `read`.  In ET mode it goes on for as long as the peer keeps sending, here for at most `passes`
passes. -/
def read (isET : Bool) (io : ℕ → Readv) (passes : ℕ) (t : Reading) : Exec (ℤ × Reading) :=
  Loop.run .running (readPass isET io) passes t

variable {isET : Bool} {io : ℕ → Readv} {t t' : Reading}

/-- What the read buffer holds: `old`, and all that has been received since. -/
structure Reading.Tracks (old : Bytes) (t : Reading) : Prop where
  ok : t.conn.readBuf.Ok
  readable : t.conn.readBuf.readable = old ++ t.received

/-- The next `readv` finds room for as many bytes as are readable. -/
structure Reading.Roomy (io : ℕ → Readv) (t : Reading) : Prop where
  buf_ne : t.conn.readBuf.buf ≠ []
  size_lt : t.conn.readBuf.buf.length < 2 ^ 63
  fit : t.conn.readBuf.getReadableBytes ≤ t.conn.readBuf.getWritableBytes
  bytes_le : (io t.calls).bytes.length ≤ t.conn.readBuf.getReadableBytes + MAX_EXTRA_SPACE

theorem readPass_eq {len saveErrno : ℤ} {conn : HttpConn}
    (he : t.conn.readToBuf (io t.calls) t.saveErrno = .ok (len, saveErrno, conn)) :
    let t' := ⟨conn, t.received ++ (io t.calls).bytes, t.calls + 1, saveErrno⟩
    readPass isET io t = .ok (if len ≤ 0 ∨ isET = false then .exit (len, t') else .next t') := by
  rw [readPass, he, ok_bind]
  by_cases hlen : len ≤ 0
  · simp [hlen]
  · cases isET <;> simp [hlen]

/-- **One pass receives what one `readv` delivers.** -/
theorem Reading.Tracks.pass (isET : Bool) {old : Bytes} (h : t.Tracks old) (hroom : t.Roomy io) :
    ∃ (len : ℤ) (t' : Reading), t'.Tracks old ∧ readPass isET io t =
      .ok (if len ≤ 0 ∨ isET = false then .exit (len, t') else .next t') := by
  obtain ⟨hb, hsize, hfit, hbytes⟩ := hroom
  cases hio : io t.calls with
  | fails errno =>
    refine ⟨-1, _, ?_, readPass_eq (hio ▸ readToBuf_fails hb errno)⟩
    exact ⟨h.ok, by rw [h.readable, hio, Readv.bytes, List.append_nil]⟩
  | delivers s =>
    have hw := h.ok.write_le
    have hlen := hfit
    rw [h.ok.getWritableBytes_eq] at hlen
    rw [hio, Readv.bytes, MAX_EXTRA_SPACE] at hbytes
    obtain ⟨readBuf, hok, hread, he⟩ :=
      readToBuf_delivers t.saveErrno h.ok hb hfit (s := s) (by omega)
    refine ⟨s.length, _, ?_, readPass_eq (hio ▸ he)⟩
    exact ⟨hok, by rw [hread, h.readable, hio, Readv.bytes, List.append_assoc]⟩

/-- **`read` receives everything that it is sent**, if every `readv` finds the room. -/
theorem read_receives {old : Bytes} (h : t.Tracks old)
    (hroom : ∀ t', Loop.Heads (readPass isET io) t t' → t'.Roomy io) {passes : ℕ} {len : ℤ}
    (he : read isET io passes t = .ok (len, t')) : t'.Tracks old := by
  refine Loop.run_ok (I := fun t' => Loop.Heads (readPass isET io) t t' ∧ t'.Tracks old)
    (Q := fun r => r.2.Tracks old) ?_ ?_ passes t ⟨.refl, h⟩ he
  · rintro t₁ t₂ ⟨hheads, htracks⟩ hpass
    refine ⟨hheads.tail hpass, ?_⟩
    obtain ⟨len, t₃, h₃, hpass'⟩ := htracks.pass isET (hroom t₁ hheads)
    rw [hpass] at hpass'
    split at hpass' <;> cases hpass'
    exact h₃
  · rintro t₁ r ⟨hheads, htracks⟩ hpass
    obtain ⟨len, t₃, h₃, hpass'⟩ := htracks.pass isET (hroom t₁ hheads)
    rw [hpass] at hpass'
    split at hpass' <;> cases hpass'
    exact h₃

end HttpConn

end WebServer
