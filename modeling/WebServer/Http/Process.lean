import WebServer.Http.Conn
import WebServer.Http.Message

/-!
# Http/Process — what `process` can do, and requests that come in pieces

`process_cases` says all that a call of `process` can do.  It asks for more only when it finds
nothing at all to read, which is why no request survives being cut in two (`not_survivesCut`).
-/

namespace WebServer

namespace HttpConn

variable {srcDir : Bytes} {sys : Sys} {db : Mysql} {c c' : HttpConn}

/-! ## The cases of `process` -/

/-- **All that `process` can do**: nothing to read, or a response. -/
theorem process_cases {more : Bool} (h : process srcDir sys db c = .ok (more, c')) :
    (c.readBuf.getReadableBytes = 0 ∧ more = false ∧
      c' = { c with request := HttpRequest.blank }) ∨
    (0 < c.readBuf.getReadableBytes ∧ more = true ∧
      ∃ parsed request readBuf response writeBuf calls p,
        HttpRequest.blank.parse db c.readBuf = .ok (parsed, request, readBuf) ∧
        (c.response.init srcDir request.path (if parsed then request.isKeepAlive else false)
          (if parsed then 200 else 400)).1.makeResponse sys c.writeBuf
            = .ok (response, writeBuf, calls) ∧
        writeBuf.getReadPos = .ok p ∧
        c' = { c with request, readBuf, response, writeBuf }.setIov p) := by
  rw [process] at h
  split at h
  · next hempty =>
    obtain ⟨rfl, rfl⟩ := by simpa using h
    exact .inl ⟨Nat.le_zero.mp hempty, rfl, rfl⟩
  · next hne =>
    obtain ⟨⟨parsed, request, readBuf⟩, hparse, h⟩ := bind_eq_ok.mp h
    obtain ⟨⟨response, writeBuf, calls⟩, hmake, h⟩ := bind_eq_ok.mp h
    obtain ⟨p, hp, h⟩ := bind_eq_ok.mp h
    obtain ⟨rfl, rfl⟩ := by simpa using h
    refine .inr ⟨Nat.pos_of_ne_zero fun h0 => hne h0.le, rfl, parsed, request, readBuf, response,
      writeBuf, calls, p, hparse, ?_, hp, rfl⟩
    cases parsed <;> exact hmake

/-- **`process` never asks for more of what it has begun to read.** -/
theorem process_ne_false (hpos : 0 < c.readBuf.getReadableBytes) :
    process srcDir sys db c ≠ .ok (false, c') := by
  intro h
  obtain ⟨h0, -, -⟩ | ⟨-, hmore, -⟩ := process_cases h
  · omega
  · cases hmore

theorem iovCount_lt_setIov (p : ℕ) (c : HttpConn) : c.iovCount < (c.setIov p).iovCount := by
  unfold setIov
  dsimp only
  split
  · split
    · simp only
      omega
    · exact Nat.lt_succ_self _
  · exact Nat.lt_succ_self _

/-- Every response counts the gather list up. -/
theorem iovCount_lt_of_process (h : process srcDir sys db c = .ok (true, c')) :
    c.iovCount < c'.iovCount := by
  obtain ⟨-, hmore, -⟩ | ⟨-, -, _, request, readBuf, response, writeBuf, _, p, -, -, -, rfl⟩ :=
    process_cases h
  · cases hmore
  · exact iovCount_lt_setIov p { c with request, readBuf, response, writeBuf }

/-! ## Requests in two pieces -/

/-- The first piece of a request is in the read buffer, and `next` is the second: `process` asks for
more, and once `next` has come in behind what it left, it reads the request it would have read off
both pieces at once.  However the bytes come in, `b₁` and `b₂` are what they make of the buffer. -/
def SurvivesCut (srcDir : Bytes) (sys : Sys) (db : Mysql) (c : HttpConn) (next : Bytes) : Prop :=
  ∃ c₁, process srcDir sys db c = .ok (false, c₁) ∧
    ∀ b₁ b₂ : Buffer, b₁.Ok → b₁.readable = c₁.readBuf.readable ++ next →
      b₂.Ok → b₂.readable = c.readBuf.readable ++ next →
      ∃ c₂ c₃, process srcDir sys db { c₁ with readBuf := b₁ } = .ok (true, c₂) ∧
        process srcDir sys db { c with readBuf := b₂ } = .ok (true, c₃) ∧
        c₂.request.method = c₃.request.method ∧ c₂.request.path = c₃.request.path ∧
        c₂.request.version = c₃.request.version ∧ c₂.request.headers = c₃.request.headers

/-- **No request survives a cut**, wherever it is: after the first `n` bytes `process` answers or
aborts. -/
theorem not_survivesCut (srcDir : Bytes) (sys : Sys) (db : Mysql) (m : HttpRequest.Message) {n : ℕ}
    (hpos : 0 < n) (hn : n < m.print.length) {c : HttpConn} (hb : c.readBuf.Ok)
    (hread : c.readBuf.readable = m.print.take n) :
    ¬ SurvivesCut srcDir sys db c (m.print.drop n) := by
  rintro ⟨c₁, hfirst, -⟩
  refine process_ne_false ?_ hfirst
  rw [hb.getReadableBytes_eq, hread, List.length_take]
  omega

/-- A connection with `s` in its read buffer. -/
def received (s : Bytes) : HttpConn :=
  { new ⟨.wild 0, 0, 0⟩ ⟨.wild 0, 0, 0⟩ .requestLine with readBuf := HttpRequest.bufferOf s }

/-- A system without files. -/
def noFiles : Sys := ⟨fun _ => none, fun _ => none, fun _ => none, fun _ _ => none⟩

/-- A platform on which a `memset` over a buffer empties it. -/
def emptied : Abi Members := ⟨fun _ m => { m with readBuf := .new 0, writeBuf := .new 0 }⟩

theorem not_survivesCut_getA :
    ¬ SurvivesCut [] noFiles HttpRequest.noDb (received (HttpRequest.getA.print.take 4))
      (HttpRequest.getA.print.drop 4) :=
  not_survivesCut [] noFiles HttpRequest.noDb HttpRequest.getA (by decide) (by decide)
    (HttpRequest.bufferOf_ok (by decide)) (HttpRequest.readable_bufferOf _)

/-- A cut before the blank line: the request line alone is answered. -/
theorem not_survivesCut_root :
    ¬ SurvivesCut [] noFiles HttpRequest.noDb (received (str "GET / HTTP/1.1\r\n"))
      (str "\r\n") := by
  rintro ⟨c₁, hfirst, -⟩
  exact process_ne_false (by decide) hfirst

end HttpConn

end WebServer
