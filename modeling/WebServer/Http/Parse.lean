import WebServer.Buffer.Cursors
import WebServer.Http.Request
import WebServer.Machinery.Lines

/-!
# Http/Parse — the loop of `HttpRequest::parse` is a fold over lines

`parse` searches for CRLFs with a pointer and moves the buffer's read position past each line it is
done with.  `feed` hands a list of lines to the handlers and knows nothing of a buffer.
`parseLines` stands between them: the loop of `parse` computes it on the lines that
`Lines.split` sees (`parse_eq_parseLines`), and on contents that end in CRLF it is `feed`
(`parseLines_eq_feed`).
-/

namespace WebServer

namespace HttpRequest

variable (db : Mysql)

/-- `std::search` for a CRLF between the cursors. -/
def searchCRLF (buf : Buffer) : Exec ℕ := do
  let first ← buf.getReadPos
  let last ← buf.getWritePos
  let s ← buf.load first last
  return first + Lines.search [CR, LF] s

/-- One pass of the loop of `parse`. -/
def parsePass (s : HttpRequest × Buffer) :
    Exec (Loop.Pass (HttpRequest × Buffer) (Bool × HttpRequest × Buffer)) :=
  let (r, buf) := s
  if 0 < buf.getReadableBytes ∧ r.state ≠ .finish then do
    let lineEnd ← searchCRLF buf
    let line ← buf.load (← buf.getReadPos) lineEnd
    match ← r.handleLine db line with
    | (false, r) => return .exit (false, r, buf)
    | (true, r) =>
      if lineEnd + 2 = (← buf.getWritePos) then return .exit (true, r, buf)
      else
        let buf ← buf.retrieveUntil (lineEnd + 2)
        return .next (r, buf)
  else return .exit (true, r, buf)

def parse (r : HttpRequest) (buf : Buffer) : Exec (Bool × HttpRequest × Buffer) :=
  if buf.getReadableBytes ≤ 0 then return (false, r, buf)
  else Loop.run .running (parsePass db) (buf.getReadableBytes + 1) (r, buf)

/-! ## The line automaton -/

/-- What becomes of lines fed to a request: the answer, the request, and how many were fed. -/
structure Fed where
  ok : Bool
  req : HttpRequest
  fed : ℕ

/-- Lines fed in order to the handler of the state, until one is refused, the state is `finish`, or
there are no more. -/
def feed (r : HttpRequest) : List Bytes → Exec Fed
  | [] => .ok ⟨true, r, 0⟩
  | l :: ls =>
    if r.state = .finish then .ok ⟨true, r, 0⟩
    else do
      match ← r.handleLine db l with
      | (false, r) => return ⟨false, r, 1⟩
      | (true, r) =>
        let out ← feed r ls
        return { out with fed := out.fed + 1 }

/-- How many of `n` lines leave the buffer: not the refused one, and not the last. -/
def Fed.consumed (out : Fed) (n : ℕ) : ℕ :=
  if out.ok then if out.fed = n then n - 1 else out.fed else out.fed - 1

/-- The answer, the request and the number of bytes retrieved, for the lines `ls` and an
unterminated rest. -/
def parseLines (rest : Bytes) (r : HttpRequest) : List Bytes → Exec (Bool × HttpRequest × ℕ)
  | [] =>
    if rest = [] ∨ r.state = .finish then .ok (true, r, 0)
    else do
      match ← r.handleLine db rest with
      | (false, r) => return (false, r, 0)
      | (true, _) => .error (.assertion "len <= getReadableBytes()")
  | l :: ls =>
    if r.state = .finish then .ok (true, r, 0)
    else do
      match ← r.handleLine db l with
      | (false, r) => return (false, r, 0)
      | (true, r) =>
        if ls = [] ∧ rest = [] then return (true, r, 0)
        else
          let (ok, r, k) ← parseLines rest r ls
          return (ok, r, l.length + 2 + k)

/-! ## The loop computes `parseLines` -/

variable {db} {r r' : HttpRequest} {b : Buffer}

theorem searchCRLF_eq (hb : b.Ok) (hne : b.readable ≠ []) :
    searchCRLF b = .ok (b.readPos + Lines.search [CR, LF] b.readable) := by
  have hbuf := hb.buf_ne_nil hne
  have hload : b.load b.readPos b.writePos = .ok b.readable := Buffer.load_eq hb.read_le hb.write_le
  rw [searchCRLF, Buffer.getReadPos_eq hbuf, ok_bind, Buffer.getWritePos_eq hbuf, ok_bind, hload,
    ok_bind, pure_eq_ok]

/-- A pass, with the cursors' arithmetic done. -/
theorem parsePass_eq (hb : b.Ok) (hne : b.readable ≠ []) (hst : r.state ≠ .finish) :
    parsePass db (r, b) = do
      let n := Lines.search [CR, LF] b.readable
      match ← r.handleLine db (b.readable.take n) with
      | (false, r) => return .exit (false, r, b)
      | (true, r) =>
        if n + 2 = b.readable.length then return .exit (true, r, b)
        else
          let buf ← b.retrieve (n + 2)
          return .next (r, buf) := by
  have hbuf := hb.buf_ne_nil hne
  have hpos : 0 < b.getReadableBytes := by
    rw [hb.getReadableBytes_eq]
    exact List.length_pos_iff.mpr hne
  have hw := hb.writePos_eq
  rw [parsePass, if_pos ⟨hpos, hst⟩]
  simp only [searchCRLF_eq hb hne, Buffer.getReadPos_eq hbuf, Buffer.getWritePos_eq hbuf, ok_bind,
    hb.load_prefix (Lines.search_le _ _), Nat.add_assoc, Buffer.retrieveUntil_eq hbuf]
  rw [hw]
  simp only [Nat.add_left_cancel_iff]

/-- **A pass over a terminated line.** -/
theorem parsePass_line (hb : b.Ok) (hst : r.state ≠ .finish) {l rest : Bytes} {ls : List Bytes}
    (h : Lines.split CR LF b.readable = (l :: ls, rest)) :
    parsePass db (r, b) = do
      match ← r.handleLine db l with
      | (false, r) => return .exit (false, r, b)
      | (true, r) =>
        if ls = [] ∧ rest = [] then return .exit (true, r, b)
        else return .next (r, b.advance (l.length + 2)) := by
  obtain ⟨u, hu, hsplit, hn⟩ := Lines.of_split_cons h
  have hne : b.readable ≠ [] := by simp [hu]
  have hlen : b.readable.length = l.length + 2 + u.length := by
    rw [hu, List.length_append, List.length_cons, List.length_cons]
    omega
  have hlast : l.length + 2 = b.readable.length ↔ ls = [] ∧ rest = [] := by
    rw [hlen]
    constructor
    · intro h0
      obtain rfl : u = [] := List.length_eq_zero_iff.mp (by omega)
      exact ⟨(congrArg Prod.fst hsplit).symm, (congrArg Prod.snd hsplit).symm⟩
    · rintro ⟨rfl, rfl⟩
      obtain rfl := (Lines.of_split_nil hsplit).1
      rfl
  have htake : b.readable.take l.length = l := by rw [hu, List.take_left]
  rw [parsePass_eq hb hne hst, hn]
  simp only [htake, hlast, hb.retrieve_eq (n := l.length + 2) (by omega), ok_bind]

/-- **A pass over an unterminated rest**: a handler that accepts it leads to a failed assertion. -/
theorem parsePass_rest (hb : b.Ok) (hne : b.readable ≠ []) (hst : r.state ≠ .finish) {rest : Bytes}
    (h : Lines.split CR LF b.readable = ([], rest)) :
    parsePass db (r, b) = (do
      match ← r.handleLine db rest with
      | (false, r) => return .exit (false, r, b)
      | (true, _) => .error (.assertion "len <= getReadableBytes()")) := by
  obtain ⟨rfl, hn⟩ := Lines.of_split_nil h
  rw [parsePass_eq hb hne hst, hn]
  have hover := hb.retrieve_fault (n := b.readable.length + 2) (by omega)
  have hlast : ¬ b.readable.length + 2 = b.readable.length := by omega
  simp only [List.take_length, hover, error_bind, if_neg hlast]

theorem parsePass_stop (hb : b.Ok) (h : b.readable = [] ∨ r.state = .finish) :
    parsePass db (r, b) = .ok (.exit (true, r, b)) := by
  rw [parsePass, if_neg, pure_eq_ok]
  rw [hb.getReadableBytes_eq, List.length_pos_iff]
  exact fun hc => h.elim hc.1 hc.2

/-- What `parse` answers, from the lines and the rest of what is between the cursors. -/
def parseResult (db : Mysql) (s : HttpRequest × Buffer) : Exec (Bool × HttpRequest × Buffer) :=
  (parseLines db (Lines.split CR LF s.2.readable).2 s.1 (Lines.split CR LF s.2.readable).1).map
    fun out => (out.1, out.2.1, s.2.advance out.2.2)

/-- **A pass leaves `parseResult` unchanged**, and going round shortens what is left. -/
theorem parsePass_sound (hb : b.Ok) :
    Loop.Sound (fun s => s.2.Ok ∧ parseResult db s = parseResult db (r, b))
      (fun s => s.2.readable.length) (fun out => out = parseResult db (r, b)) b.readable.length
      (parsePass db (r, b)) := by
  by_cases hstop : b.readable = [] ∨ r.state = .finish
  · rw [parsePass_stop hb hstop]
    rcases hstop with h | h
    · simp [Loop.Sound, parseResult, h, Lines.split, parseLines, Except.map]
    · rcases hs : Lines.split CR LF b.readable with ⟨_ | ⟨l, ls⟩, rest⟩ <;>
        simp [Loop.Sound, parseResult, hs, parseLines, h, Except.map]
  · rw [not_or] at hstop
    obtain ⟨hne, hst⟩ := hstop
    rcases hs : Lines.split CR LF b.readable with ⟨_ | ⟨l, ls⟩, rest⟩
    · obtain ⟨rfl, -⟩ := Lines.of_split_nil hs
      rw [parsePass_rest hb hne hst hs]
      rcases hl : r.handleLine db b.readable with e | ⟨_ | _, r'⟩ <;>
        simp [Loop.Sound, parseResult, hs, parseLines, hne, hst, hl, Except.map]
    · obtain ⟨u, hu, hsplit, -⟩ := Lines.of_split_cons hs
      have hadv : (b.advance (l.length + 2)).readable = u := by
        rw [Buffer.readable_advance, hu]
        simp
      have hlen : b.readable.length = l.length + 2 + u.length := by
        rw [hu, List.length_append, List.length_cons, List.length_cons]
        omega
      rw [parsePass_line hb hst hs]
      rcases hl : r.handleLine db l with e | ⟨_ | _, r'⟩
      · simp [Loop.Sound, parseResult, hs, parseLines, hst, hl, Except.map]
      · simp [Loop.Sound, parseResult, hs, parseLines, hst, hl, Except.map]
      · by_cases hlast : ls = [] ∧ rest = []
        · simp [Loop.Sound, parseResult, hs, parseLines, hst, hl, hlast, Except.map]
        · simp only [ok_bind, if_neg hlast, pure_eq_ok, Loop.Sound, hadv]
          refine ⟨⟨hb.advance (by omega), ?_⟩, by omega⟩
          simp only [parseResult, hadv, hsplit, hs, parseLines, hst, if_false, hl, ok_bind, hlast]
          rcases parseLines db rest r' ls with e | ⟨ok, r'', k⟩
          · rfl
          · simp [Except.map, Buffer.advance_advance]

/-- **The pointer loop sees the lines that `split` sees.** -/
theorem parse_eq_parseLines (hb : b.Ok) (hne : b.readable ≠ []) :
    r.parse db b
      = (parseLines db (Lines.split CR LF b.readable).2 r (Lines.split CR LF b.readable).1).map
          fun out => (out.1, out.2.1, b.advance out.2.2) := by
  have hpos := List.length_pos_iff.mpr hne
  rw [parse, if_neg (by rw [hb.getReadableBytes_eq]; omega), hb.getReadableBytes_eq]
  exact Loop.run_eq (I := fun s => s.2.Ok) (v := fun s => s.2.readable.length)
    (f := parseResult db) (fun s hs => parsePass_sound hs) hb (Nat.lt_succ_self _)

/-! ## `parseLines` and the automaton -/

theorem feed_fed {r : HttpRequest} {ls : List Bytes} {out : Fed} (h : feed db r ls = .ok out) :
    out.fed ≤ ls.length ∧ (out.ok = false → 1 ≤ out.fed) := by
  induction ls generalizing r out with
  | nil =>
    obtain rfl := Except.ok.inj h
    simp
  | cons l ls ih =>
    rw [feed] at h
    by_cases hst : r.state = .finish
    · rw [if_pos hst] at h
      obtain rfl := Except.ok.inj h
      simp
    · rw [if_neg hst, bind_eq_ok] at h
      obtain ⟨⟨_ | _, r'⟩, -, h⟩ := h
      · obtain rfl := Except.ok.inj h
        simp
      · obtain ⟨out', hout, h⟩ := bind_eq_ok.mp h
        obtain rfl := Except.ok.inj h
        have := ih hout
        exact ⟨by simpa using this.1, fun _ => by simp⟩

/-- **Without an unterminated rest, the loop is the automaton**, and its retrievals are the lines
`Fed.consumed` counts. -/
theorem parseLines_eq_feed {r : HttpRequest} {ls : List Bytes} (hne : ls ≠ []) :
    parseLines db [] r ls = (feed db r ls).map fun out =>
      (out.ok, out.req, (Lines.join CR LF (ls.take (out.consumed ls.length))).length) := by
  induction ls generalizing r with
  | nil => exact absurd rfl hne
  | cons l ls ih =>
    rw [parseLines, feed]
    by_cases hst : r.state = .finish
    · simp [hst, Except.map, Fed.consumed]
    · rw [if_neg hst, if_neg hst]
      rcases r.handleLine db l with e | ⟨_ | _, r'⟩
      · rfl
      · simp [Except.map, Fed.consumed]
      · by_cases hls : ls = []
        · subst hls
          simp [feed, Except.map, Fed.consumed]
        · simp only [ok_bind, hls, false_and, if_false, ih hls]
          rcases hf : feed db r' ls with e | out
          · rfl
          · have hfed := feed_fed hf
            have hpos := List.length_pos_iff.mpr hls
            have hcons : Fed.consumed { out with fed := out.fed + 1 } (ls.length + 1)
                = out.consumed ls.length + 1 := by
              simp only [Fed.consumed]
              rcases hok : out.ok with _ | _
              · have := hfed.2 hok
                simp only [Bool.false_eq_true, if_false]
                omega
              · simp only [if_true]
                split <;> split <;> omega
            simp only [Except.map, ok_bind, pure_eq_ok, List.length_cons, hcons,
              List.take_succ_cons, Lines.join_cons, List.length_append, List.length_cons]
            congr 3
            omega

/-- The automaton accepts every terminated line without finishing, and then the unterminated rest:
the one way to a retrieval of more than there is. -/
def Overruns (db : Mysql) (r : HttpRequest) (s : Bytes) : Prop :=
  (Lines.split CR LF s).2 ≠ [] ∧ ∃ out r', feed db r (Lines.split CR LF s).1 = .ok out ∧
    out.ok = true ∧ out.req.state ≠ .finish ∧
    out.req.handleLine db (Lines.split CR LF s).2 = .ok (true, r')

/-- **The retrieval's assertion fails exactly on an accepted rest.** -/
theorem parseLines_fault_iff {rest : Bytes} {r : HttpRequest} {ls : List Bytes} :
    parseLines db rest r ls = .error (.assertion "len <= getReadableBytes()") ↔
      rest ≠ [] ∧ ∃ out r', feed db r ls = .ok out ∧ out.ok = true ∧ out.req.state ≠ .finish ∧
        out.req.handleLine db rest = .ok (true, r') := by
  induction ls generalizing r with
  | nil =>
    rw [parseLines, feed]
    by_cases hstop : rest = [] ∨ r.state = .finish
    · rcases hstop with h | h <;> simp [h]
    · rw [if_neg hstop]
      rw [not_or] at hstop
      rcases hl : r.handleLine db rest with e | ⟨_ | _, r'⟩
      · simp [hl, (handleLine_fault hl).ne_retrieve]
      · simp [hl]
      · simp [hl, hstop]
  | cons l ls ih =>
    rw [parseLines, feed]
    by_cases hst : r.state = .finish
    · simp [hst]
    · rw [if_neg hst, if_neg hst]
      rcases hl : r.handleLine db l with e | ⟨_ | _, r'⟩
      · simp [(handleLine_fault hl).ne_retrieve]
      · simp
      · by_cases hlast : ls = [] ∧ rest = []
        · simp [hlast]
        · have hrec : (do
              let (ok, r, k) ← parseLines db rest r' ls
              return (ok, r, l.length + 2 + k)) = .error (.assertion "len <= getReadableBytes()") ↔
                parseLines db rest r' ls = .error (.assertion "len <= getReadableBytes()") := by
            rcases parseLines db rest r' ls with e | out <;> simp
          simp only [ok_bind, if_neg hlast, hrec, ih]
          rcases feed db r' ls with e | out <;> simp

theorem feed_fault {r : HttpRequest} {ls : List Bytes} {e : Fault} (h : feed db r ls = .error e) :
    MysqlFault e := by
  induction ls generalizing r with
  | nil => cases h
  | cons l ls ih =>
    rw [feed] at h
    split at h
    · cases h
    · rcases bind_eq_error.mp h with h | ⟨⟨_ | _, r'⟩, -, h⟩
      · exact handleLine_fault h
      · cases h
      · rcases bind_eq_error.mp h with h | ⟨out, -, h⟩
        · exact ih h
        · cases h

theorem parseLines_le {rest : Bytes} {r r' : HttpRequest} {ls : List Bytes} {ok : Bool} {k : ℕ}
    (h : parseLines db rest r ls = .ok (ok, r', k)) : k ≤ (Lines.join CR LF ls).length := by
  induction ls generalizing r r' ok k with
  | nil =>
    rw [parseLines] at h
    split at h
    · cases h
      exact Nat.zero_le _
    · obtain ⟨⟨_ | _, r''⟩, -, h⟩ := bind_eq_ok.mp h
      · cases h
        exact Nat.zero_le _
      · cases h
  | cons l ls ih =>
    rw [parseLines] at h
    split at h
    · cases h
      exact Nat.zero_le _
    · obtain ⟨⟨_ | _, r''⟩, -, h⟩ := bind_eq_ok.mp h
      · cases h
        exact Nat.zero_le _
      · simp only at h
        split at h
        · cases h
          exact Nat.zero_le _
        · obtain ⟨⟨ok', r₂, k'⟩, hrec, h⟩ := bind_eq_ok.mp h
          cases h
          have := ih hrec
          simp only [Lines.join_cons, List.length_append, List.length_cons]
          omega

/-! ## What `parse` does -/

/-- **`parse` only moves the read position**, and not past the write position. -/
theorem parse_advance (hb : b.Ok) {ok : Bool} {b' : Buffer} (h : r.parse db b = .ok (ok, r', b')) :
    ∃ k ≤ b.readable.length, b' = b.advance k := by
  by_cases hne : b.readable = []
  · rw [parse, if_pos (by simp [hb.getReadableBytes_eq, hne])] at h
    cases h
    exact ⟨0, Nat.zero_le _, rfl⟩
  · rw [parse_eq_parseLines hb hne] at h
    rcases hp : parseLines db (Lines.split CR LF b.readable).2 r (Lines.split CR LF b.readable).1
      with e | ⟨ok', r₂, k⟩ <;> rw [hp] at h <;> cases h
    have hjoin := congrArg List.length (Lines.join_split_append (x := CR) (y := LF) b.readable)
    rw [List.length_append] at hjoin
    exact ⟨k, by have := parseLines_le hp; omega, rfl⟩

theorem parse_cursors (hb : b.Ok) {ok : Bool} {b' : Buffer} (h : r.parse db b = .ok (ok, r', b')) :
    b'.readPos ≤ b'.writePos := by
  obtain ⟨k, hk, rfl⟩ := parse_advance hb h
  exact (hb.advance hk).read_le

/-- **The loop of `parse` is the line automaton** on contents that end in CRLF: the same answer and
the same request, and the lines `Fed.consumed` counts are gone from the buffer. -/
theorem parse_eq_feed (db : Mysql) (r : HttpRequest) {b : Buffer} (hb : b.Ok)
    (hend : [CR, LF] <:+ b.readable) :
    let lines := (Lines.split CR LF b.readable).1
    r.parse db b = (feed db r lines).map (fun out => (out.ok, out.req,
      b.advance (Lines.join CR LF (lines.take (out.consumed lines.length))).length)) ∧
    (∀ ok r' b', r.parse db b = .ok (ok, r', b') → b'.readPos ≤ b'.writePos) ∧
    ∀ e, r.parse db b = .error e → MysqlFault e := by
  intro lines
  have hne : b.readable ≠ [] := by
    intro h
    rw [h] at hend
    exact absurd hend.length_le (by simp)
  have hrest : (Lines.split CR LF b.readable).2 = [] :=
    (Lines.split_rest_nil_iff (by decide) _).mpr (.inr hend)
  have hlines : lines ≠ [] := by
    intro h
    have hjoin := Lines.join_split_append (x := CR) (y := LF) b.readable
    rw [hrest, show (Lines.split CR LF b.readable).1 = [] from h] at hjoin
    exact hne hjoin.symm
  have heq : r.parse db b = (feed db r lines).map (fun out => (out.ok, out.req,
      b.advance (Lines.join CR LF (lines.take (out.consumed lines.length))).length)) := by
    rw [parse_eq_parseLines hb hne, hrest, parseLines_eq_feed hlines]
    rcases feed db r lines with e | out <;> rfl
  refine ⟨heq, fun ok r' b' h => parse_cursors hb h, fun e h => ?_⟩
  rw [heq] at h
  rcases hf : feed db r lines with e' | out <;> rw [hf] at h <;> cases h
  exact feed_fault hf

/-- A database that answers no query. -/
def noDb : Mysql := ⟨true, fun _ => .failed⟩

/-- A buffer that holds `s` and nothing else. -/
def bufferOf (s : Bytes) : Buffer := ⟨s, s.length, 0⟩

theorem bufferOf_ok {s : Bytes} (h : s.length < 2 ^ 64) : (bufferOf s).Ok :=
  ⟨Nat.zero_le _, le_rfl, h⟩

theorem readable_bufferOf (s : Bytes) : (bufferOf s).readable = s := by
  rw [Buffer.readable, bufferOf, List.drop_zero, Nat.sub_zero, List.take_length]

theorem parse_eq_feed_get :
    (blank.parse noDb (bufferOf (str "GET / HTTP/1.1\r\nHost: a\r\n\r\n"))).map
        (fun out => (out.1, out.2.1.path, out.2.1.headers (str "Host"), out.2.2.readPos))
      = .ok (true, str "/index.html", some (str "a"), 25) := by
  rw [(parse_eq_feed noDb blank (bufferOf_ok (by decide)) (by decide)).1]
  rfl

/-- `parse` leaves the cursors in order and no retrieval of it fails its assertion. -/
def ParseInBounds (db : Mysql) (r : HttpRequest) (b : Buffer) : Prop :=
  r.parse db b ≠ .error (.assertion "len <= getReadableBytes()") ∧
    ∀ ok r' b', r.parse db b = .ok (ok, r', b') → b'.readPos ≤ b'.writePos

/-- **`parse` stays inside the buffer unless it accepts an unterminated rest.** -/
theorem parse_in_bounds_iff (db : Mysql) (r : HttpRequest) {b : Buffer} (hb : b.Ok) :
    ParseInBounds db r b ↔ ¬ Overruns db r b.readable := by
  rw [ParseInBounds, and_iff_left fun ok r' b' h => parse_cursors hb h, Overruns,
    ← parseLines_fault_iff, not_iff_not]
  by_cases hne : b.readable = []
  · rw [parse, if_pos (by simp [hb.getReadableBytes_eq, hne]), hne]
    simp [Lines.split, parseLines]
  · rw [parse_eq_parseLines hb hne]
    rcases parseLines db (Lines.split CR LF b.readable).2 r (Lines.split CR LF b.readable).1
      with e | out <;> simp [Except.map]

theorem parse_in_bounds_iff_get :
    ParseInBounds noDb blank (bufferOf (str "GET / HT")) ↔
      ¬ Overruns noDb blank (bufferOf (str "GET / HT")).readable :=
  parse_in_bounds_iff noDb blank (bufferOf_ok (by decide))

/-- A request line cut off before its CRLF is accepted, and the CRLF that is not there retrieved. -/
theorem parse_overruns :
    ¬ ParseInBounds noDb blank (bufferOf (str "GET / HTTP/1.1")) := by
  intro h
  refine h.1 ?_
  rfl

end HttpRequest

end WebServer
