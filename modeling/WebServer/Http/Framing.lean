import WebServer.Http.Gather
import WebServer.Machinery.Decimal
import WebServer.Machinery.Lines

/-!
# Http/Framing — the head of a response is well framed

A `Frame` is a response to be read: the status line, the fields, and what follows the blank line.
`head_eq` says that `makeResponse` writes one, whatever the path is; the path chooses the file and
the type, and none of its bytes is written.
-/

namespace WebServer

namespace HttpResponse

/-- A response, taken apart. -/
structure Frame where
  code : ℤ
  text : Bytes
  fields : List (Bytes × Bytes)
  body : Bytes

namespace Frame

/-- A header line. -/
def line (f : Bytes × Bytes) : Bytes := f.1 ++ str ": " ++ f.2

variable (m : Frame)

def statusLine : Bytes := str "HTTP/1.1 " ++ str (toString m.code) ++ str " " ++ m.text

/-- The lines before the blank line. -/
def lines : List Bytes := m.statusLine :: m.fields.map line

/-- The lines with their ends, the blank line, and the body. -/
def print : Bytes := Lines.join CR LF m.lines ++ CR :: LF :: m.body

/-- Names of fields are the same in any case. -/
def lower (name : Bytes) : Bytes :=
  name.map fun c => if 'A'.toUInt8 ≤ c ∧ c ≤ 'Z'.toUInt8 then c + 32 else c

/-- The values of the fields of a name. -/
def values (name : Bytes) : List Bytes :=
  (m.fields.filter fun f => lower f.1 = lower name).map Prod.snd

/-- There is one `Content-length`, and it says `n`. -/
def Measures (n : ℕ) : Prop :=
  ∃ value, m.values (str "Content-length") = [value] ∧ Decimal.read value = some n

structure WellFormed : Prop where
  code : m.code ∈ ([200, 400, 403, 404] : List ℤ)
  text : CR ∉ m.text ∧ LF ∉ m.text
  names : ∀ f ∈ m.fields, f.1 ≠ [] ∧ HttpRequest.COLON ∉ f.1
  lines : ∀ f ∈ m.fields, CR ∉ line f ∧ LF ∉ line f

variable {m} {m' : Frame}

theorem WellFormed.statusLine (h : m.WellFormed) : CR ∉ m.statusLine ∧ LF ∉ m.statusLine := by
  have hhead : ∀ code ∈ ([200, 400, 403, 404] : List ℤ),
      CR ∉ str "HTTP/1.1 " ++ str (toString code) ++ str " " ∧
      LF ∉ str "HTTP/1.1 " ++ str (toString code) ++ str " " := by decide +kernel
  obtain ⟨hcr, hlf⟩ := hhead m.code h.code
  exact ⟨fun hmem => (List.mem_append.mp hmem).elim hcr h.text.1,
    fun hmem => (List.mem_append.mp hmem).elim hlf h.text.2⟩

theorem WellFormed.lines_ne (h : m.WellFormed) : ∀ l ∈ m.lines, CR ∉ l := by
  refine List.forall_mem_cons.mpr ⟨h.statusLine.1, fun l hl => ?_⟩
  obtain ⟨f, hf, rfl⟩ := List.mem_map.mp hl
  exact (h.lines f hf).1

/-- **The first double line end is the blank line.** -/
theorem WellFormed.search (h : m.WellFormed) :
    Lines.search [CR, LF, CR, LF] m.print + 2 = (Lines.join CR LF m.lines).length := by
  refine Lines.search_blank (by decide) h.lines_ne (fun l hl => ?_) m.body
  obtain ⟨f, hf, rfl⟩ := List.mem_map.mp hl
  simp [line, (h.names f hf).1]

/-- A header line says its name and its value. -/
theorem line_inj {f g : Bytes × Bytes} (hf : HttpRequest.COLON ∉ f.1) (hg : HttpRequest.COLON ∉ g.1)
    (h : line f = line g) : f = g := by
  have hcolon : str ": " = [HttpRequest.COLON, SP] := by decide
  have hname : ∀ {f : Bytes × Bytes}, HttpRequest.COLON ∉ f.1 →
      (line f).takeWhile (· != HttpRequest.COLON) = f.1 := fun {f} hf => by
    rw [line, hcolon, List.append_assoc, List.takeWhile_append_of_pos fun c hc => by
      simpa using ne_of_mem_of_not_mem hc hf]
    simp
  have hfg : f.1 = g.1 := by rw [← hname hf, h, hname hg]
  rw [line, line, hfg] at h
  exact Prod.ext hfg (List.append_cancel_left h)

theorem fields_inj {fs gs : List (Bytes × Bytes)} (hf : ∀ f ∈ fs, HttpRequest.COLON ∉ f.1)
    (hg : ∀ g ∈ gs, HttpRequest.COLON ∉ g.1) (h : fs.map line = gs.map line) : fs = gs := by
  induction fs generalizing gs with
  | nil => exact (List.map_eq_nil_iff.mp h.symm).symm
  | cons f fs ih =>
    cases gs with
    | nil => cases h
    | cons g gs =>
      obtain ⟨hfirst, hrest⟩ := List.cons.inj h
      obtain ⟨hf, hfs⟩ := List.forall_mem_cons.mp hf
      obtain ⟨hg, hgs⟩ := List.forall_mem_cons.mp hg
      rw [line_inj hf hg hfirst, ih hfs hgs hrest]

/-- **A well-framed response can be read in one way only.** -/
theorem WellFormed.print_inj (h : m.WellFormed) (h' : m'.WellFormed) (heq : m.print = m'.print) :
    m = m' := by
  have hlen : (Lines.join CR LF m.lines).length = (Lines.join CR LF m'.lines).length := by
    rw [← h.search, ← h'.search, heq]
  obtain ⟨hjoin, hrest⟩ := List.append_inj heq hlen
  have hlines : m.lines = m'.lines := by
    have hsplit := congrArg (Lines.split CR LF) hjoin
    rw [Lines.split_join h.lines_ne, Lines.split_join h'.lines_ne] at hsplit
    exact congrArg Prod.fst hsplit
  obtain ⟨hstatus, hfields⟩ := List.cons.inj hlines
  have hcodes : ∀ code ∈ ([200, 400, 403, 404] : List ℤ), ∀ code' ∈ ([200, 400, 403, 404] : List ℤ),
      (str "HTTP/1.1 " ++ str (toString code) ++ str " ").length
        = (str "HTTP/1.1 " ++ str (toString code') ++ str " ").length ∧
      (str "HTTP/1.1 " ++ str (toString code) ++ str " "
        = str "HTTP/1.1 " ++ str (toString code') ++ str " " → code = code') := by decide +kernel
  obtain ⟨hsame, hinj⟩ := hcodes m.code h.code m'.code h'.code
  obtain ⟨hcode, htext⟩ := List.append_inj hstatus hsame
  obtain ⟨code, text, fields, body⟩ := m
  obtain rfl : code = m'.code := hinj hcode
  obtain rfl : text = m'.text := htext
  obtain rfl : fields = m'.fields :=
    fields_inj (fun f hf => (h.names f hf).2) (fun f hf => (h'.names f hf).2) hfields
  obtain rfl : body = m'.body := (List.cons.inj (List.cons.inj hrest).2).2
  rfl

end Frame

variable (r : HttpResponse) (sys : Sys)

/-- The fields that say whether the connection is kept. -/
def connFields (keepAlive : Bool) : List (Bytes × Bytes) :=
  if keepAlive then
    [(str "Connection", str "keep-alive"), (str "keep-alive", str "max=10, timeout=120")]
  else [(str "Connection", str "close")]

/-- What is written for a settled response. -/
def frame : Frame where
  code := r.code
  text := (STATUS_CODE.lookup r.code).getD []
  fields := connFields r.keepAlive ++
    [(str "Content-type", r.getFileType),
      (str "Content-length", Decimal.print
        (if (r.mapping sys).isSome then r.fileStat.size
        else (r.errorBody (str "File NotFound!")).length))]
  body := if (r.mapping sys).isSome then [] else r.errorBody (str "File NotFound!")

/-- **What `makeResponse` writes is the frame of the settled response.** -/
theorem head_eq : r.head sys = ((r.settled sys).frame sys).print := by
  generalize hs : r.settled sys = s
  have hcrlf : str "\r\n" = [CR, LF] := by decide
  have hblank : str "\r\n\r\n" = [CR, LF, CR, LF] := by decide
  have hclose : str "close\r\n" = str "close" ++ [CR, LF] := by decide
  have hkeep : str "keep-alive\r\n" = str "keep-alive" ++ [CR, LF] := by decide
  have hmax : str "keep-alive: max=10, timeout=120\r\n"
    = str "keep-alive" ++ str ": " ++ str "max=10, timeout=120" ++ [CR, LF] := by decide +kernel
  have hconn : str "Connection: " = str "Connection" ++ str ": " := by decide
  have htype : str "Content-type: " = str "Content-type" ++ str ": " := by decide
  have hlength : str "Content-length: " = str "Content-length" ++ str ": " := by decide
  have hnum : ∀ n : ℕ, str n.repr = Decimal.print n := fun n => rfl
  rw [head, hs, stateLine, headerLines, content, Frame.print, Frame.lines, Frame.statusLine, frame,
    hcrlf, hblank, hclose, hkeep, hmax, hconn, htype, hlength]
  cases s.mapping sys <;> cases s.keepAlive <;> simp [Frame.line, connFields, hnum]

/-! ## The frame is well formed -/

variable {r sys}

/-- The type is one of the table, or the default; nothing of the path is in it. -/
theorem getFileType_mem (r : HttpResponse) :
    r.getFileType ∈ str "text/plain" :: FILE_TYPE.map Prod.snd := by
  rw [getFileType]
  dsimp only
  split
  · generalize '.'.toUInt8 :: (r.path.reverse.takeWhile (· != '.'.toUInt8)).reverse = type
    cases h : FILE_TYPE.lookup type with
    | none => exact List.mem_cons_self
    | some value =>
      obtain ⟨front, back, heq, -⟩ := List.lookup_eq_some_iff.mp h
      refine List.mem_cons_of_mem _ (List.mem_map.mpr ⟨(type, value), ?_, rfl⟩)
      rw [heq]
      exact List.mem_append_right _ List.mem_cons_self
  · exact List.mem_cons_self

theorem wellFormed_frame (h : r.code ∈ ([200, 400, 403, 404] : List ℤ)) :
    (r.frame sys).WellFormed where
  code := h
  text := by
    have htext : ∀ code ∈ ([200, 400, 403, 404] : List ℤ),
        CR ∉ (STATUS_CODE.lookup code).getD [] ∧ LF ∉ (STATUS_CODE.lookup code).getD [] := by
      decide +kernel
    exact htext r.code h
  names f hf := by
    have hnames : ∀ keepAlive, ∀ name ∈ (connFields keepAlive).map Prod.fst ++
        [str "Content-type", str "Content-length"], name ≠ [] ∧ HttpRequest.COLON ∉ name := by
      decide +kernel
    refine hnames r.keepAlive f.1 ?_
    have hmem := List.mem_map_of_mem (f := Prod.fst) hf
    rwa [frame, List.map_append] at hmem
  lines f hf := by
    have hconn : ∀ keepAlive, ∀ f ∈ connFields keepAlive,
        CR ∉ Frame.line f ∧ LF ∉ Frame.line f := by decide +kernel
    have htype : ∀ type ∈ str "text/plain" :: FILE_TYPE.map Prod.snd,
        CR ∉ Frame.line (str "Content-type", type) ∧
        LF ∉ Frame.line (str "Content-type", type) := by decide +kernel
    have hname : CR ∉ str "Content-length" ++ str ": " ∧ LF ∉ str "Content-length" ++ str ": " := by
      decide +kernel
    have hdigits : ∀ c n, c ∈ Decimal.print n → c ≠ CR ∧ c ≠ LF := fun c n hc => by
      have hdigit := Decimal.isDigit_of_mem_print hc
      exact ⟨fun h => absurd (h ▸ hdigit) (by decide), fun h => absurd (h ▸ hdigit) (by decide)⟩
    rcases List.mem_append.mp hf with hf | hf
    · exact hconn _ f hf
    rcases List.mem_cons.mp hf with rfl | hf
    · exact htype _ r.getFileType_mem
    obtain rfl := List.mem_singleton.mp hf
    exact ⟨fun hmem => (List.mem_append.mp hmem).elim hname.1 fun hc => (hdigits _ _ hc).1 rfl,
      fun hmem => (List.mem_append.mp hmem).elim hname.2 fun hc => (hdigits _ _ hc).2 rfl⟩

/-- A settled response is written in a well-formed frame. -/
theorem wellFormed_settled (r : HttpResponse) (sys : Sys) :
    ((r.settled sys).frame sys).WellFormed := by
  refine wellFormed_frame ?_
  rw [settled_eq]
  show status (sys.stat r.fileName) ∈ _
  obtain h | h | h := status_cases (sys.stat r.fileName) <;> rw [h] <;> decide

theorem measures_frame : (r.frame sys).Measures
    (if (r.mapping sys).isSome then r.fileStat.size
      else (r.errorBody (str "File NotFound!")).length) := by
  have hconn : ∀ keepAlive, (connFields keepAlive).filter
      (fun f => Frame.lower f.1 = Frame.lower (str "Content-length")) = [] := by decide +kernel
  have htype : Frame.lower (str "Content-type") ≠ Frame.lower (str "Content-length") := by
    decide +kernel
  refine ⟨_, ?_, Decimal.read_print _⟩
  rw [Frame.values, frame, List.filter_append, hconn]
  simp [htype]

/-- A page that stands in for the file is measured itself. -/
theorem measures_page (h : r.mapping sys = none) :
    (r.frame sys).Measures (r.frame sys).body.length := by
  have hmeasures := @measures_frame r sys
  have hbody : (r.frame sys).body = r.errorBody (str "File NotFound!") := by
    rw [frame, h]
    rfl
  rw [hbody]
  rwa [h] at hmeasures

/-- For a mapped file its size is announced, and nothing is written. -/
theorem measures_file {addr : ℕ} (h : r.mapping sys = some addr) :
    (r.frame sys).Measures r.fileStat.size ∧ (r.frame sys).body = [] := by
  have hmeasures := @measures_frame r sys
  rw [h] at hmeasures
  refine ⟨hmeasures, ?_⟩
  rw [frame, h]
  rfl

/-! ## What `makeResponse` writes -/

/-- **`makeResponse` writes a well-framed head**: its first double line end is the blank line, and
its one `Content-length` says the size of the mapped file, of which nothing is written, or of the
page behind the blank line. -/
theorem makeResponse_framed (r : HttpResponse) (srcDir path : Bytes) (keepAlive : Bool) (code : ℤ)
    (sys : Sys) {b : Buffer} (hb : b.Ok)
    (hroom : b.writePos + ((r.init srcDir path keepAlive code).1.head sys).length + 1 < 2 ^ 64) :
    ∃ r' b' calls, ∃ m : Frame,
      (r.init srcDir path keepAlive code).1.makeResponse sys b = .ok (r', b', calls) ∧
      b'.readable = b.readable ++ m.print ∧ m.WellFormed ∧
      Lines.search [CR, LF, CR, LF] m.print + 2 = (Lines.join CR LF m.lines).length ∧
      (r'.file = none → m.Measures m.body.length) ∧
      (∀ addr, r'.file = some addr → m.Measures r'.fileStat.size ∧ m.body = []) := by
  obtain ⟨b', calls, hmake, hext⟩ := makeResponse_eq hb hroom
  generalize hr : (r.init srcDir path keepAlive code).1 = r₀ at *
  have hfile : (r₀.settled sys).file = none := by
    rw [file_settled, ← hr, file_init]
  have hwf := wellFormed_settled r₀ sys
  refine ⟨_, b', calls, (r₀.settled sys).frame sys, hmake, ?_, hwf, hwf.search, ?_, ?_⟩
  · rw [hext.readable, head_eq]
  · intro hnone
    rw [hfile, Option.or_none] at hnone
    exact measures_page hnone
  · intro addr hsome
    rw [hfile, Option.or_none] at hsome
    exact measures_file hsome

/-- A path that tries to write a header of its own. -/
theorem makeResponse_framed_injected : ∃ r' b' calls, ∃ m : Frame,
    (new.init [] (str "/a\r\nX: y") true 200).1.makeResponse HttpConn.oneFile (.new 1024)
      = .ok (r', b', calls) ∧ b'.readable = m.print ∧ m.WellFormed := by
  obtain ⟨r', b', calls, m, hmake, hread, hwf, -⟩ := makeResponse_framed new []
    (str "/a\r\nX: y") true 200 HttpConn.oneFile (Buffer.new_ok (n := 1024) (by decide))
    (by decide +kernel)
  rw [Buffer.readable_new] at hread
  exact ⟨r', b', calls, m, hmake, hread, hwf⟩

end HttpResponse

end WebServer
