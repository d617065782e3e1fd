import WebServer.Http.Form
import WebServer.Http.Message

/-!
# Http/Post — printed forms, and what `parse` makes of them

A `Form` is a message with the method POST and the pairs of a form behind its blank line.  Its texts
have no `+`, `=`, `&` or CR, and are printed without a percent code.  A CRLF follows the body: a
client does not send one, but without it `parse` would take more bytes out of the buffer than there
are.  `parse_body` runs the automaton over the lines, up to `_parsePost` on the body; `parse_form`
is the round trip: parsing undoes printing, and the body is decoded to the pairs.
-/

namespace WebServer

namespace HttpRequest

variable {db : Mysql} {r r' : HttpRequest} {b : Buffer} {body : Bytes}

/-! ## A line behind others -/

/-- The automaton on one more line, when it has accepted all before. -/
theorem feed_concat {ls : List Bytes} (l : Bytes) (h : feed db r ls = .ok ⟨true, r', ls.length⟩) :
    feed db r (ls ++ [l])
      = (feed db r' [l]).map fun out => ⟨out.ok, out.req, ls.length + out.fed⟩ := by
  induction ls generalizing r with
  | nil =>
    obtain rfl := (Fed.mk.inj (Except.ok.inj h)).2.1
    rw [List.nil_append]
    cases feed db r [l] with
    | error e => rfl
    | ok out => simp [Except.map]
  | cons l' ls ih =>
    rw [feed] at h
    rw [List.cons_append, feed]
    by_cases hst : r.state = .finish
    · rw [if_pos hst] at h
      have hlen := (Fed.mk.inj (Except.ok.inj h)).2.2
      simp at hlen
    · rw [if_neg hst, bind_eq_ok] at h
      obtain ⟨⟨_ | _, r₁⟩, hline, h⟩ := h
      · obtain ⟨hok, -, -⟩ := Fed.mk.inj (Except.ok.inj h)
        cases hok
      · obtain ⟨out, hout, h⟩ := bind_eq_ok.mp h
        obtain ⟨hok, hreq, hfed⟩ := Fed.mk.inj (Except.ok.inj h)
        rw [if_neg hst, hline, ok_bind]
        have hall : feed db r₁ ls = .ok ⟨true, r', ls.length⟩ := by
          rw [hout, ← hok, ← hreq, ← Nat.succ.inj hfed]
        dsimp only
        rw [ih hall]
        cases feed db r' [l] with
        | error e => rfl
        | ok out' =>
          simp only [Except.map, ok_bind, pure_eq_ok, List.length_cons]
          congr 2
          omega

/-- What `parseBody` makes of `_parsePost`. -/
def finished (out : Bool × HttpRequest) : HttpRequest :=
  if out.1 then { out.2 with state := .finish } else out.2

theorem parseBody_eq (hpost : r.method = str "POST") (hne : body ≠ []) (db : Mysql) :
    r.parseBody db body
      = (parsePost { r with body } db).map fun out => (out.1, finished out) := by
  rw [parseBody, if_neg (not_not.mpr hpost), if_neg (by simpa using hne)]
  cases parsePost { r with body } db with
  | error e => rfl
  | ok out => obtain ⟨_ | _, r'⟩ := out <;> rfl

namespace Message

variable (m : Message)

/-- **`parse` on a message with a body**: it ends as `_parsePost` does on the body, whose line stays
in the buffer. -/
theorem parse_body (hpost : m.method = str "POST") (hne : body ≠ []) (hcr : CR ∉ body) (db : Mysql)
    (r : HttpRequest) (hb : b.Ok) (hread : b.readable = m.print ++ (body ++ [CR, LF])) :
    (r.init.parse db b = (parsePost { m.request with body } db).map fun out =>
        (out.1, finished out, b.advance m.print.length)) ∧
      (b.advance m.print.length).Ok ∧ (b.advance m.print.length).readable = body ++ [CR, LF] := by
  have hlines : Lines.split CR LF b.readable = (m.lines ++ [body], []) := by
    have hjoin : b.readable = Lines.join CR LF (m.lines ++ [body]) := by
      rw [hread, print, Lines.join_append]
      simp
    rw [hjoin]
    refine Lines.split_join fun l hl => ?_
    rcases List.mem_append.mp hl with hl | hl
    · have hsplit := m.split_print
      simp only [lines, headerLines, List.mem_cons, List.mem_append, List.mem_map,
        List.not_mem_nil, or_false] at hl
      rcases hl with rfl | ⟨f, hf, rfl⟩ | rfl
      · exact m.not_mem_requestLine
      · exact m.not_mem_headerLine hf
      · exact List.not_mem_nil
    · rwa [List.mem_singleton.mp hl]
  have hfeed : parseLines db [] blank (m.lines ++ [body])
      = (parsePost { m.request with body } db).map fun out =>
        (out.1, finished out, m.print.length) := by
    have hst : m.request.state ≠ .finish := by simp [request]
    have hbody : feed db m.request [body]
        = (parsePost { m.request with body } db).map fun out => ⟨out.1, finished out, 1⟩ := by
      rw [feed, if_neg hst]
      show (m.request.parseBody db body >>= _) = _
      rw [parseBody_eq hpost hne]
      cases parsePost { m.request with body } db with
      | error e => rfl
      | ok out => obtain ⟨_ | _, r'⟩ := out <;> simp [Except.map, feed]
    rw [parseLines_eq_feed (by simp), feed_concat body (m.feed_lines db), hbody]
    cases parsePost { m.request with body } db with
    | error e => rfl
    | ok out =>
      have hconsumed : (m.lines ++ [body]).take m.lines.length = m.lines := List.take_left
      obtain ⟨_ | _, r'⟩ := out <;>
        simp [Except.map, Fed.consumed, hconsumed, print]
  have hne' : b.readable ≠ [] := by
    rw [hread]
    simp
  refine ⟨?_, hb.advance ?_, ?_⟩
  · rw [init, parse_eq_parseLines hb hne', hlines, hfeed]
    cases parsePost { m.request with body } db <;> rfl
  · rw [hread, List.length_append]
    exact Nat.le_add_right _ _
  · rw [Buffer.readable_advance, hread, List.drop_left]

end Message

/-! ## Forms -/

/-- A well-formed request that posts a form: a message, and the pairs behind its blank line, whose
texts need no escape but that of the space. -/
structure Form extends Message where
  pairs : List (Bytes × Bytes)
  post : method = str "POST"
  type : toMessage.request.headers (str "Content-Type")
    = some (str "application/x-www-form-urlencoded")
  pairs_ne : pairs ≠ []
  pairs_ok : ∀ h ∈ pairs, Unmarked h.1 ∧ Unmarked h.2
  pairs_line : ∀ h ∈ pairs, CR ∉ h.1 ∧ CR ∉ h.2

theorem not_mem_intercalate {c d : Byte} (hcd : c ≠ d) {ls : List Bytes} (hls : ∀ l ∈ ls, c ∉ l) :
    c ∉ List.intercalate [d] ls := by
  induction ls with
  | nil => simp [List.intercalate]
  | cons l ls ih =>
    obtain ⟨hl, hls⟩ := List.forall_mem_cons.mp hls
    cases ls with
    | nil => simpa [List.intercalate_singleton] using hl
    | cons l' ls =>
      rw [List.intercalate_cons_cons]
      simp [hl, hcd, ih hls]

/-- An encoded form is one line. -/
theorem not_mem_encode {pairs : List (Bytes × Bytes)}
    (hpairs : ∀ h ∈ pairs, CR ∉ h.1 ∧ CR ∉ h.2) : CR ∉ encode pairs := by
  intro hmem
  obtain ⟨c, hc, hplus⟩ := List.mem_map.mp hmem
  have hcr : c = CR := by
    by_contra hne
    rw [plus] at hplus
    split at hplus
    · exact absurd hplus (by decide)
    · exact hne hplus
  rw [hcr] at hc
  refine not_mem_intercalate (by decide) (fun l hl => ?_) hc
  obtain ⟨h, hh, rfl⟩ := List.mem_map.mp hl
  have hequals : CR ≠ EQUALS := by decide
  simp [hpairs h hh, hequals]

theorem encode_ne_nil {pairs : List (Bytes × Bytes)} (hne : pairs ≠ []) : encode pairs ≠ [] := by
  cases pairs with
  | nil => exact absurd rfl hne
  | cons h pairs =>
    cases pairs with
    | nil => simp [encode, List.intercalate_singleton]
    | cons h' pairs => simp [encode, List.intercalate_cons_cons]

namespace Form

variable (f : Form)

/-- The message, and the body with a CRLF behind it. -/
def print : Bytes := f.toMessage.print ++ (encode f.pairs ++ [CR, LF])

/-- The request that `_parsePost` is called on. -/
def posted : HttpRequest := { f.toMessage.request with body := encode f.pairs }

theorem posted_type : f.posted.headers (str "Content-Type")
    = some (str "application/x-www-form-urlencoded") := f.type

/-- **`parse` on a printed form** ends as `_parsePost` does. -/
theorem parse_print (db : Mysql) (r : HttpRequest) (hb : b.Ok) (hread : b.readable = f.print) :
    ∃ b', r.init.parse db b
        = (f.posted.parsePost db).map (fun out => (out.1, finished out, b')) ∧
      b'.Ok ∧ b'.readable = encode f.pairs ++ [CR, LF] :=
  ⟨_, f.toMessage.parse_body f.post (encode_ne_nil f.pairs_ne) (not_mem_encode f.pairs_line) db r hb
    hread⟩

/-- **Parsing undoes printing, and decoding undoes encoding**, for a form that is not the login's:
the request's words, its headers, and the last value of each key. -/
theorem parse_form (hpath : LOGIN_OPTIONS.lookup (htmlPath f.path) = none) (db : Mysql)
    (r : HttpRequest) (hb : b.Ok) (hread : b.readable = f.print) :
    ∃ r' b', r.init.parse db b = .ok (true, r', b') ∧ r'.method = str "POST" ∧
      r'.path = htmlPath f.path ∧ r'.version = f.version ∧
      r'.headers = Dict.ofList (f.fields.map fun h => (h.1, dropSpace h.2)) ∧
      r'.post = Dict.ofList f.pairs ∧ r'.state = .finish ∧
      b'.Ok ∧ b'.readable = encode f.pairs ++ [CR, LF] := by
  obtain ⟨b', hparse, hok, hleft⟩ := f.parse_print db r hb hread
  obtain ⟨body, hform⟩ := parseEncodedUrl_encode f.posted f.pairs_ne f.pairs_ok rfl
  have hpost : f.posted.parsePost db = .ok (true, { f.posted with
      body := body, post := setAll f.posted.post f.pairs }) := by
    rw [parsePost, f.posted_type]
    dsimp only
    rw [if_neg (by simp), hform]
    dsimp only
    rw [show LOGIN_OPTIONS.lookup f.posted.path = none from hpath]
    rfl
  rw [hpost] at hparse
  exact ⟨_, b', hparse, f.post, rfl, rfl, rfl, rfl, rfl, hok, hleft⟩

end Form

/-- A note with a space in it, sent twice. -/
def note : Form where
  method := str "POST"
  path := str "/note"
  version := str "1.1"
  fields := [(str "Content-Type", str " application/x-www-form-urlencoded")]
  words_ok := by decide +kernel
  names_ok := by decide +kernel
  texts_ok := by decide +kernel
  pairs := [(str "text", str "a b"), (str "text", str "c")]
  post := rfl
  type := by decide +kernel
  pairs_ne := by decide
  pairs_ok := by decide +kernel
  pairs_line := by decide +kernel

theorem parse_form_note : ∃ r' b',
    blank.init.parse noDb (bufferOf note.print) = .ok (true, r', b') ∧
      r'.post (str "text") = some (str "c") := by
  obtain ⟨r', b', hparse, -, -, -, -, hpost, -⟩ := note.parse_form (by decide +kernel) noDb blank
    (bufferOf_ok (by decide +kernel)) (readable_bufferOf _)
  exact ⟨r', b', hparse, by rw [hpost]; decide +kernel⟩

end HttpRequest

end WebServer
