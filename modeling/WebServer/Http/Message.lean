import WebServer.Http.Parse

/-!
# Http/Message — printed requests, and what `parse` makes of them

A `Message` is a request without a body: three words, and header fields given as a name and the
text behind its colon.  `feed_lines` runs the automaton over its lines; `parse_message` is the same
for `parse`, and says what it leaves in the buffer: the blank line's CRLF.

* `parse_requestText` — parsing undoes printing.
* `not_keepsApart` — the CRLF that is left makes the next request on the connection fail.
-/

namespace WebServer

namespace HttpRequest

/-! ## The two patterns on printed lines -/

theorem fullMatch_lit (s t : Bytes) (items : List (Regex.Item Byte)) :
    Regex.fullMatch (lit s ++ items) (s ++ t) = Regex.fullMatch items t := by
  induction s with
  | nil => rfl
  | cons c s ih =>
    simp only [lit, List.map_cons, List.cons_append, Regex.fullMatch_one_cons, beq_self_eq_true,
      if_true]
    exact ih

/-- Up to a delimiter that the next piece of the pattern asks for. -/
theorem fullMatch_until {d : Byte} {u : Bytes} (hu : d ∉ u) (s : Bytes)
    (items : List (Regex.Item Byte)) :
    Regex.fullMatch (Regex.group (.many (· != d)) :: (lit [d] ++ items)) (u ++ d :: s)
      = (Regex.fullMatch items s).map (u :: ·) := by
  rw [Regex.fullMatch_many_append (a := d)]
  · exact congrArg _ (fullMatch_lit [d] s items)
  · intro a s ha
    have had : ¬ a = d := by simpa using ha
    simp [lit, had]
  · intro a ha
    simpa using ne_of_mem_of_not_mem ha hu
  · simp

theorem fullMatch_requestLine {method path version : Bytes} (hm : SP ∉ method) (hp : SP ∉ path)
    (hv : SP ∉ version) :
    Regex.fullMatch requestLinePattern (method ++ SP :: (path ++ SP :: (str "HTTP/" ++ version)))
      = some [method, path, version] := by
  have hall : version.all (· != SP) = true := by
    simpa [List.all_eq_true] using fun c hc => ne_of_mem_of_not_mem hc hv
  have hpat : requestLinePattern = Regex.group (.many (· != SP)) :: (lit [SP]
      ++ Regex.group (.many (· != SP)) :: (lit [SP] ++ (lit (str "HTTP/")
      ++ [Regex.group (.many (· != SP))]))) := rfl
  rw [hpat, fullMatch_until hm, fullMatch_until hp, fullMatch_lit, Regex.fullMatch_many_last,
    if_pos hall]
  rfl

/-- A header's text without the one space that may stand before its value. -/
def dropSpace : Bytes → Bytes
  | [] => []
  | c :: s => if c = SP then s else c :: s

/-- **What the pattern of a header takes behind the colon.** -/
theorem fullMatch_value (text : Bytes) :
    Regex.fullMatch [Regex.skip (.opt (· == SP)), Regex.group (.many fun c => c != CR && c != LF)]
      text = if ∀ c ∈ text, c ≠ CR ∧ c ≠ LF then some [dropSpace text] else none := by
  have hlast : ∀ s : Bytes, Regex.fullMatch [Regex.group (.many fun c => c != CR && c != LF)] s
      = if ∀ c ∈ s, c ≠ CR ∧ c ≠ LF then some [s] else none := by
    intro s
    simp [Regex.fullMatch_many_last]
  cases text with
  | nil =>
    rw [if_pos (List.forall_mem_nil _)]
    rfl
  | cons c s =>
    simp only [Regex.fullMatch_opt_cons, hlast, List.forall_mem_cons]
    by_cases hc : c = SP
    · subst hc
      have hsp : SP ≠ CR ∧ SP ≠ LF := by decide
      rw [if_pos (beq_self_eq_true SP), dropSpace, if_pos rfl]
      by_cases hs : ∀ c ∈ s, c ≠ CR ∧ c ≠ LF
      · rw [if_pos hs, if_pos ⟨hsp, hs⟩, Option.some_or, if_pos ⟨hsp, hs⟩]
      · rw [if_neg hs, if_neg fun h => hs h.2, Option.none_or, if_neg fun h => hs h.2]
    · rw [if_neg (by simpa using hc), dropSpace, if_neg hc]

theorem fullMatch_header {name text : Bytes} (hn : COLON ∉ name)
    (ht : ∀ c ∈ text, c ≠ CR ∧ c ≠ LF) :
    Regex.fullMatch headerPattern (name ++ COLON :: text) = some [name, dropSpace text] := by
  have hpat : headerPattern = Regex.group (.many (· != COLON)) :: (lit [COLON]
      ++ [Regex.skip (.opt (· == SP)), Regex.group (.many fun c => c != CR && c != LF)]) := rfl
  rw [hpat, fullMatch_until hn, fullMatch_value, if_pos ht]
  rfl

/-! ## Messages -/

def requestLine (method path version : Bytes) : Bytes :=
  method ++ SP :: (path ++ SP :: (str "HTTP/" ++ version))

def headerLine (name text : Bytes) : Bytes := name ++ COLON :: text

/-- A well-formed request without a body: its words, and the name and the text behind the colon of
each header field. -/
structure Message where
  method : Bytes
  path : Bytes
  version : Bytes
  fields : List (Bytes × Bytes)
  words_ok : ∀ w ∈ [method, path, version], ∀ c ∈ w, c ≠ SP ∧ c ≠ CR ∧ c ≠ LF
  names_ok : ∀ f ∈ fields, ∀ c ∈ f.1, c ≠ COLON ∧ c ≠ CR ∧ c ≠ LF
  texts_ok : ∀ f ∈ fields, ∀ c ∈ f.2, c ≠ CR ∧ c ≠ LF

/-- The path after the mapping of `DEFAULT_HTML`. -/
def htmlPath (path : Bytes) : Bytes :=
  if DEFAULT_HTML.contains path then
    if path = str "/" then str "/index.html" else path ++ str ".html"
  else path

theorem parsePath_eq (r : HttpRequest) : r.parsePath = { r with path := htmlPath r.path } := by
  unfold parsePath htmlPath
  simp only [List.contains_iff_mem]
  split
  · split <;> rfl
  · rfl

namespace Message

variable (m : Message)

def headerLines : List Bytes := m.fields.map fun f => headerLine f.1 f.2

/-- The lines of a message, the blank one last. -/
def lines : List Bytes := requestLine m.method m.path m.version :: (m.headerLines ++ [[]])

def print : Bytes := Lines.join CR LF m.lines

/-- The request a message is parsed to. -/
def request : HttpRequest :=
  { state := .body
    method := m.method
    path := htmlPath m.path
    version := m.version
    body := []
    headers := Dict.ofList (m.fields.map fun f => (f.1, dropSpace f.2))
    post := .empty }

/-! ### The automaton on a message -/

theorem not_mem_requestLine : CR ∉ requestLine m.method m.path m.version := by
  have h : ∀ w ∈ [m.method, m.path, m.version], CR ∉ w :=
    fun w hw hc => (m.words_ok w hw CR hc).2.1 rfl
  have hm := h m.method (by simp)
  have hp := h m.path (by simp)
  have hv := h m.version (by simp)
  have hhttp : CR ∉ str "HTTP/" := by decide
  have hsp : CR ≠ SP := by decide
  simp only [requestLine, List.mem_append, List.mem_cons]
  tauto

theorem not_mem_headerLine {f : Bytes × Bytes} (hf : f ∈ m.fields) : CR ∉ headerLine f.1 f.2 := by
  have hn : CR ∉ f.1 := fun hc => (m.names_ok f hf CR hc).2.1 rfl
  have ht : CR ∉ f.2 := fun hc => (m.texts_ok f hf CR hc).1 rfl
  have hcolon : CR ≠ COLON := by decide
  simp only [headerLine, List.mem_append, List.mem_cons]
  tauto

/-- **`split` gets a message's lines back.** -/
theorem split_print : Lines.split CR LF m.print = (m.lines, []) := by
  refine Lines.split_join fun l hl => ?_
  simp only [lines, headerLines, List.mem_cons, List.mem_append, List.mem_map,
    List.not_mem_nil, or_false] at hl
  rcases hl with rfl | ⟨f, hf, rfl⟩ | rfl
  · exact m.not_mem_requestLine
  · exact m.not_mem_headerLine hf
  · exact List.not_mem_nil

theorem handleLine_requestLine (db : Mysql) :
    blank.handleLine db (requestLine m.method m.path m.version)
      = .ok (true, { m.request with state := .headers, headers := .empty }) := by
  have h : ∀ w ∈ [m.method, m.path, m.version], SP ∉ w :=
    fun w hw hc => (m.words_ok w hw SP hc).1 rfl
  have hmatch := fullMatch_requestLine (h m.method (by simp)) (h m.path (by simp))
    (h m.version (by simp))
  simp only [handleLine, blank, parseRequestLine, requestLine, hmatch, parsePath_eq, request,
    pure_eq_ok]

/-- A field's line sets its value, less one leading space. -/
theorem handleLine_headerLine (db : Mysql) {r : HttpRequest} (hst : r.state = .headers)
    {name text : Bytes} (hn : COLON ∉ name) (ht : ∀ c ∈ text, c ≠ CR ∧ c ≠ LF) :
    r.handleLine db (headerLine name text)
      = .ok (true, { r with headers := r.headers.set name (dropSpace text) }) := by
  have hne : (name ++ COLON :: text).isEmpty = false := by simp
  simp only [handleLine, hst, parseHeaders, headerLine, hne, Bool.false_eq_true, if_false,
    fullMatch_header hn ht, pure_eq_ok]

/-- The header lines and the blank line, fed in the state `headers`. -/
theorem feed_headerLines (db : Mysql) : ∀ (fields : List (Bytes × Bytes)) (r : HttpRequest),
    r.state = .headers → (∀ f ∈ fields, COLON ∉ f.1) → (∀ f ∈ fields, ∀ c ∈ f.2, c ≠ CR ∧ c ≠ LF) →
      feed db r (fields.map (fun f => headerLine f.1 f.2) ++ [[]])
        = .ok ⟨true, { r with
            state := .body
            headers := (fields.map fun f => (f.1, dropSpace f.2)).foldl
              (fun d h => d.set h.1 h.2) r.headers }, fields.length + 1⟩
  | [], r, hst, _, _ => by
    simp [feed, handleLine, hst, parseHeaders]
  | f :: fields, r, hst, hn, ht => by
    have hne : r.state ≠ .finish := by simp [hst]
    have hline := handleLine_headerLine db hst (hn f List.mem_cons_self) (ht f List.mem_cons_self)
    have ih := feed_headerLines db fields
      { r with headers := r.headers.set f.1 (dropSpace f.2) } hst
      (fun g hg => hn g (List.mem_cons_of_mem _ hg)) (fun g hg => ht g (List.mem_cons_of_mem _ hg))
    simp only [List.map_cons, List.cons_append, feed, if_neg hne, hline, ok_bind, ih, pure_eq_ok,
      List.foldl_cons, List.length_cons]

/-- **The automaton reads a message off its lines.** -/
theorem feed_lines (db : Mysql) :
    feed db blank m.lines = .ok ⟨true, m.request, m.lines.length⟩ := by
  have hn : ∀ f ∈ m.fields, COLON ∉ f.1 := fun f hf hc => (m.names_ok f hf COLON hc).1 rfl
  have hrest := feed_headerLines db m.fields
    { m.request with state := .headers, headers := .empty } rfl hn m.texts_ok
  rw [lines, headerLines, feed, if_neg (by simp [blank]), handleLine_requestLine, ok_bind]
  simp only [hrest, ok_bind, pure_eq_ok]
  simp [request, Dict.ofList]

/-- **`parse` on a printed message**: the message's request, and its last CRLF still in the
buffer. -/
theorem parse_message (db : Mysql) (r : HttpRequest) {b : Buffer} (hb : b.Ok)
    (hread : b.readable = m.print) :
    ∃ b', r.init.parse db b = .ok (true, m.request, b') ∧ b'.Ok ∧ b'.readable = [CR, LF] := by
  have hne : b.readable ≠ [] := by
    rw [hread]
    simp [print, lines]
  have hfeed : (parseLines db [] blank m.lines) = .ok (true, m.request,
      (Lines.join CR LF m.lines.dropLast).length) := by
    rw [parseLines_eq_feed (by simp [lines]), m.feed_lines db]
    simp [Except.map, Fed.consumed, List.dropLast_eq_take]
  have hprint : m.print = Lines.join CR LF m.lines.dropLast ++ [CR, LF] := by
    rw [print, lines, ← List.cons_append, List.dropLast_concat, Lines.join_append]
    rfl
  refine ⟨b.advance (Lines.join CR LF m.lines.dropLast).length, ?_, hb.advance ?_, ?_⟩
  · rw [init, parse_eq_parseLines hb hne, hread, m.split_print, hfeed]
    rfl
  · rw [hread, hprint, List.length_append]
    exact Nat.le_add_right _ _
  · rw [Buffer.readable_advance, hread, hprint, List.drop_left]

end Message

/-! ## Parsing undoes printing -/

/-- The text of a request without a body. -/
def requestText (method path version : Bytes) (headers : List (Bytes × Bytes)) : Bytes :=
  method ++ [SP] ++ path ++ [SP] ++ str "HTTP/" ++ version ++ [CR, LF]
    ++ (headers.flatMap fun h => h.1 ++ str ": " ++ h.2 ++ [CR, LF]) ++ [CR, LF]

theorem join_headerLines (headers : List (Bytes × Bytes)) :
    Lines.join CR LF (headers.map fun h => headerLine h.1 (SP :: h.2))
      = headers.flatMap fun h => h.1 ++ str ": " ++ h.2 ++ [CR, LF] := by
  have hcolon : str ": " = [COLON, SP] := by decide
  induction headers with
  | nil => rfl
  | cons h headers ih =>
    rw [List.map_cons, Lines.join_cons, ih, List.flatMap_cons, hcolon]
    simp [headerLine]

/-- **Parsing undoes printing.** -/
theorem parse_requestText (db : Mysql) (r : HttpRequest) {method path version : Bytes}
    {headers : List (Bytes × Bytes)}
    (hwords : ∀ w ∈ [method, path, version], ∀ c ∈ w, c ≠ SP ∧ c ≠ CR ∧ c ≠ LF)
    (hnames : ∀ h ∈ headers, ∀ c ∈ h.1, c ≠ COLON ∧ c ≠ CR ∧ c ≠ LF)
    (hvalues : ∀ h ∈ headers, ∀ c ∈ h.2, c ≠ CR ∧ c ≠ LF) {b : Buffer} (hb : b.Ok)
    (hread : b.readable = requestText method path version headers) :
    ∃ r' b', r.init.parse db b = .ok (true, r', b') ∧ r'.method = method ∧
      r'.path = htmlPath path ∧ r'.version = version ∧ r'.headers = Dict.ofList headers ∧
      r'.body = [] ∧ r'.post = .empty ∧ r'.state = .body := by
  let m : Message :=
    { method, path, version
      fields := headers.map fun h => (h.1, SP :: h.2)
      words_ok := hwords
      names_ok := by
        intro f hf
        obtain ⟨h, hh, rfl⟩ := List.mem_map.mp hf
        exact hnames h hh
      texts_ok := by
        intro f hf c hc
        obtain ⟨h, hh, rfl⟩ := List.mem_map.mp hf
        rcases List.mem_cons.mp hc with rfl | hc
        · decide
        · exact hvalues h hh c hc }
  have hprint : m.print = requestText method path version headers := by
    have hheaders : m.headerLines = headers.map fun h => headerLine h.1 (SP :: h.2) := by
      simp [m, Message.headerLines]
    rw [Message.print, Message.lines, hheaders, Lines.join_cons, Lines.join_append,
      join_headerLines]
    simp [requestLine, requestText, m]
  obtain ⟨b', hparse, -, -⟩ := m.parse_message db r hb (hread.trans hprint.symm)
  refine ⟨m.request, b', hparse, rfl, rfl, rfl, ?_, rfl, rfl, rfl⟩
  have hvalue : ∀ h : Bytes × Bytes, (h.1, dropSpace (SP :: h.2)) = h := fun h => rfl
  simp [Message.request, m, Function.comp_def, hvalue]

theorem parse_requestText_login :
    ∃ r' b', blank.init.parse noDb (bufferOf (requestText (str "GET") (str "/login") (str "1.1")
        [(str "Host", str "a"), (str "", str " b"), (str "Host", str "c: d")]))
          = .ok (true, r', b') ∧
      r'.path = str "/login.html" ∧ r'.headers (str "Host") = some (str "c: d") := by
  obtain ⟨r', b', h, -, hpath, -, hheaders, -⟩ := @parse_requestText noDb blank (str "GET")
    (str "/login") (str "1.1") [(str "Host", str "a"), (str "", str " b"), (str "Host", str "c: d")]
    (by decide +kernel) (by decide +kernel) (by decide +kernel)
    (bufferOf (requestText (str "GET") (str "/login") (str "1.1")
      [(str "Host", str "a"), (str "", str " b"), (str "Host", str "c: d")]))
    (bufferOf_ok (by decide)) (readable_bufferOf _)
  exact ⟨r', b', h, by rw [hpath]; decide, by rw [hheaders]; decide⟩

/-! ## Two requests on one connection -/

/-- Once `parse` has succeeded on the buffer `b`, the request is initialised again and the bytes
`next` have come in behind what is left in the buffer, `parse` succeeds again, and the request is
what `next` alone is parsed to.  However the bytes come in, `b₂` is what they make of the buffer. -/
def KeepsApart (db : Mysql) (r : HttpRequest) (b : Buffer) (next : Bytes) : Prop :=
  ∀ r₁ b₁, r.init.parse db b = .ok (true, r₁, b₁) →
    ∃ b₂ r₂ b₃, b₂.Ok ∧ b₂.readable = b₁.readable ++ next ∧
      r₁.init.parse db b₂ = .ok (true, r₂, b₃) ∧
      ∀ b₀ : Buffer, b₀.Ok → b₀.readable = next → ∃ b₀', r.init.parse db b₀ = .ok (true, r₂, b₀')

/-- A blank line where the request line should be is refused. -/
theorem parse_blankLine {db : Mysql} {r : HttpRequest} {b : Buffer} (hb : b.Ok) {s : Bytes}
    (hread : b.readable = CR :: LF :: s) : r.init.parse db b = .ok (false, blank, b) := by
  have hrefused : blank.handleLine db [] = .ok (false, blank) := rfl
  rw [init, parse_eq_parseLines hb (by simp [hread]), hread, Lines.split_mark]
  simp only [parseLines, hrefused, ok_bind, pure_eq_ok, Except.map]
  rfl

/-- **No request survives the one before it**: `parse` succeeds on the first, whose blank line is
then still there and is refused as the second's request line. -/
theorem not_keepsApart (db : Mysql) (r : HttpRequest) (m₁ m₂ : Message) {b : Buffer} (hb : b.Ok)
    (hread : b.readable = m₁.print) : ¬ KeepsApart db r b m₂.print := by
  intro h
  obtain ⟨b₁, hfirst, -, hleft⟩ := m₁.parse_message db r hb hread
  obtain ⟨b₂, r₂, b₃, hok₂, hread₂, hsecond, -⟩ := h _ _ hfirst
  rw [parse_blankLine hok₂ (s := m₂.print) (by rw [hread₂, hleft]; rfl)] at hsecond
  simp at hsecond

/-- A request for a page, on a connection to be kept. -/
def getA : Message where
  method := str "GET"
  path := str "/a"
  version := str "1.1"
  fields := [(str "Connection", str " keep-alive")]
  words_ok := by decide +kernel
  names_ok := by decide +kernel
  texts_ok := by decide +kernel

theorem not_keepsApart_getA : ¬ KeepsApart noDb blank (bufferOf getA.print) getA.print :=
  not_keepsApart noDb blank getA getA (bufferOf_ok (by decide)) (readable_bufferOf _)

/-- Two requests for the start page: of the first, `\r\n` is left. -/
theorem not_keepsApart_root :
    ¬ KeepsApart noDb blank (bufferOf (str "GET / HTTP/1.1\r\n\r\n"))
      (str "GET / HTTP/1.1\r\n\r\n") := by
  intro h
  obtain ⟨b₂, r₂, b₃, hok₂, hread₂, hsecond, -⟩ := h _ _ rfl
  have hleft : b₂.readable = CR :: LF :: str "GET / HTTP/1.1\r\n\r\n" := hread₂
  rw [parse_blankLine hok₂ hleft] at hsecond
  simp at hsecond

end HttpRequest

end WebServer
