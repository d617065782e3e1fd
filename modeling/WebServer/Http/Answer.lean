import WebServer.Http.Gather

/-!
# Http/Answer — what `process` answers to a request

`process_answer` is the other half of `process_cases`: where `parse` returns there is an answer,
with the response `answer` and its head.  The code of a request that `parse` rejects is handed to
that response, but `makeResponse` chooses another (`statusLine_iff`).
-/

namespace WebServer

namespace HttpConn

variable {srcDir : Bytes} {sys : Sys} {db : Mysql} {c : HttpConn} {parsed : Bool}
  {request : HttpRequest} {readBuf : Buffer}

/-- The response to a request, as `process` hands it to `makeResponse`. -/
def answer (srcDir : Bytes) (c : HttpConn) (parsed : Bool) (request : HttpRequest) : HttpResponse :=
  (c.response.init srcDir request.path (if parsed then request.isKeepAlive else false)
    (if parsed then 200 else 400)).1

theorem answer_eq (srcDir : Bytes) (c : HttpConn) (parsed : Bool) (request : HttpRequest) :
    answer srcDir c parsed request =
      { c.response with
        file := none, srcDir, path := request.path
        keepAlive := if parsed then request.isKeepAlive else false
        code := if parsed then 200 else 400 } := by
  rw [answer, HttpResponse.init, HttpResponse.unmapFile]
  cases hfile : c.response.file <;> simp [hfile]

/-- There is something to read, `parse` returns on it, and the write buffer has room for the head of
the answer. -/
structure Answerable (srcDir : Bytes) (sys : Sys) (db : Mysql) (c : HttpConn) (parsed : Bool)
    (request : HttpRequest) (readBuf : Buffer) : Prop where
  parse : HttpRequest.blank.parse db c.readBuf = .ok (parsed, request, readBuf)
  pos : 0 < c.readBuf.getReadableBytes
  ok : c.writeBuf.Ok
  room : c.writeBuf.writePos + ((answer srcDir c parsed request).head sys).length + 1 < 2 ^ 64

/-- **Where `parse` returns, `process` answers**: the head is behind what the write buffer had, and
the gather list is set for it. -/
theorem process_answer (h : Answerable srcDir sys db c parsed request readBuf) :
    ∃ writeBuf, c.writeBuf.Extends writeBuf ((answer srcDir c parsed request).head sys) ∧
      process srcDir sys db c = .ok (true, { c with
        request, readBuf, writeBuf
        response := { (answer srcDir c parsed request).settled sys with
          file := ((answer srcDir c parsed request).settled sys).mapping sys } }.setIov
            writeBuf.readPos) := by
  obtain ⟨writeBuf, calls, hmake, hext⟩ := HttpResponse.makeResponse_eq h.ok h.room
  refine ⟨writeBuf, hext, ?_⟩
  have hfile : ((answer srcDir c parsed request).settled sys).file = none := by
    rw [HttpResponse.file_settled, answer_eq]
  rw [hfile, Option.or_none, answer] at hmake
  rw [process, if_neg (not_le.mpr h.pos), HttpRequest.init, h.parse, ok_bind]
  cases parsed <;>
  · simp only [if_true, if_false, Bool.false_eq_true] at hmake ⊢
    rw [hmake, ok_bind, Buffer.getReadPos_eq hext.buf_ne]
    rfl

/-! ## The status line -/

/-- `s` begins with a status line that says `code`. -/
def Announces (code : ℤ) (s : Bytes) : Prop :=
  ∃ rest, s = str "HTTP/1.1 " ++ (str (toString code) ++ SP :: rest)

/-- The code that a request is to be answered with. -/
def codeFor (srcDir : Bytes) (sys : Sys) (parsed : Bool) (request : HttpRequest) : ℤ :=
  if parsed then HttpResponse.status (sys.stat (cstr (srcDir ++ request.path))) else 400

/-- What `process` writes begins with a status line that says `code`. -/
def AnswersWith (srcDir : Bytes) (sys : Sys) (db : Mysql) (c : HttpConn) (code : ℤ) : Prop :=
  ∃ c' head, process srcDir sys db c = .ok (true, c') ∧
    c'.writeBuf.readable = c.writeBuf.readable ++ head ∧ Announces code head

variable {c' : HttpConn} {head : Bytes} {code : ℤ}

/-- There is one answer. -/
theorem AnswersWith.announces (h : AnswersWith srcDir sys db c code)
    (hproc : process srcDir sys db c = .ok (true, c'))
    (hread : c'.writeBuf.readable = c.writeBuf.readable ++ head) : Announces code head := by
  obtain ⟨c'', head', hproc', hread', hcode⟩ := h
  obtain ⟨-, rfl⟩ := Prod.mk.inj (Except.ok.inj (hproc'.symm.trans hproc))
  obtain rfl := List.append_cancel_left (hread.symm.trans hread')
  exact hcode

theorem announces_head (r : HttpResponse) (sys : Sys) :
    Announces (HttpResponse.status (sys.stat r.fileName)) (r.head sys) := by
  refine ⟨(HttpResponse.STATUS_CODE.lookup (r.settled sys).code).getD [] ++ str "\r\n"
    ++ ((r.settled sys).headerLines ++ (r.settled sys).content sys), ?_⟩
  have hsp : str " " = [SP] := by decide
  rw [HttpResponse.head, HttpResponse.stateLine, HttpResponse.settled_eq, hsp]
  simp only [List.append_assoc, List.cons_append, List.nil_append]

/-- A status line does not say 400 and the code for an answer of `stat`. -/
theorem not_announces_badRequest {st : Option Stat} {s : Bytes}
    (h : Announces (HttpResponse.status st) s) : ¬ Announces 400 s := by
  rintro ⟨rest', heq'⟩
  obtain ⟨rest, heq⟩ := h
  have hcode := List.append_cancel_left (heq.symm.trans heq')
  obtain hst | hst | hst := HttpResponse.status_cases st <;> rw [hst] at hcode
  · exact absurd (List.append_inj_left hcode (by decide)) (by decide)
  · exact absurd (List.append_inj_left hcode (by decide)) (by decide)
  · exact absurd (List.append_inj_left hcode (by decide)) (by decide)

/-- **The code is the one for what `stat` says of the mapped path**, whatever `parse` returned. -/
theorem answersWith_status (h : Answerable srcDir sys db c parsed request readBuf) :
    ∃ c' head, process srcDir sys db c = .ok (true, c') ∧
      c'.writeBuf.readable = c.writeBuf.readable ++ head ∧
      Announces (HttpResponse.status (sys.stat (cstr (srcDir ++ request.path)))) head := by
  obtain ⟨writeBuf, hext, hproc⟩ := process_answer h
  refine ⟨_, (answer srcDir c parsed request).head sys, hproc, ?_, ?_⟩
  · rw [setIov_members]
    exact hext.readable
  · have hcode := announces_head (answer srcDir c parsed request) sys
    rw [HttpResponse.fileName, answer_eq] at hcode
    rwa [answer_eq]

/-- **The status line says the right code if and only if `parse` accepted the request.** -/
theorem statusLine_iff (h : Answerable srcDir sys db c parsed request readBuf) :
    AnswersWith srcDir sys db c (codeFor srcDir sys parsed request) ↔ parsed = true := by
  obtain ⟨c', head, hproc, hread, hcode⟩ := answersWith_status h
  cases parsed with
  | true => exact iff_of_true ⟨c', head, hproc, hread, hcode⟩ rfl
  | false =>
    refine iff_of_false (fun hbad => ?_) (by decide)
    exact not_announces_badRequest hcode (hbad.announces hproc hread)

/-- What a fresh connection has received is answered, if there is room. -/
theorem answerable_received {text : Bytes}
    (hparse : HttpRequest.blank.parse db (received text).readBuf = .ok (parsed, request, readBuf))
    (hpos : 0 < (received text).readBuf.getReadableBytes)
    (hroom : ((answer srcDir (received text) parsed request).head sys).length + 1 < 2 ^ 64) :
    Answerable srcDir sys db (received text) parsed request readBuf :=
  ⟨hparse, hpos, Buffer.new_ok (by decide),
    lt_of_eq_of_lt (congrArg (· + 1) (Nat.zero_add _)) hroom⟩

def getRoot : Bytes := str "GET / HTTP/1.1\r\n\r\n"

def badHeader : Bytes := str "GET / HTTP/1.1\r\nbad\r\n\r\n"

/-- A fresh connection is asked for the start page. -/
theorem answerable_getRoot (hroom : ∀ keepAlive, ((HttpResponse.mk 200 keepAlive
      (str "/index.html") [] none ⟨0, 0⟩).head sys).length + 1 < 2 ^ 64) :
    ∃ request readBuf, request.path = str "/index.html" ∧
      Answerable [] sys HttpRequest.noDb (received getRoot) true request readBuf := by
  obtain ⟨request, readBuf, hparse, hpath⟩ : ∃ request readBuf, HttpRequest.blank.parse
      HttpRequest.noDb (received getRoot).readBuf = .ok (true, request, readBuf) ∧
      request.path = str "/index.html" := ⟨_, _, rfl, rfl⟩
  refine ⟨request, readBuf, hpath, answerable_received hparse (by decide) ?_⟩
  rw [answer_eq, hpath]
  exact hroom request.isKeepAlive

/-- A request for the start page, which is there. -/
theorem statusLine_iff_root : AnswersWith [] oneFile HttpRequest.noDb (received getRoot) 200 := by
  have hroom : ∀ keepAlive, ((HttpResponse.mk 200 keepAlive (str "/index.html") [] none
      ⟨0, 0⟩).head oneFile).length + 1 < 2 ^ 64 := by decide +kernel
  obtain ⟨request, readBuf, hpath, h⟩ := answerable_getRoot hroom
  have hcode := (statusLine_iff h).mpr rfl
  rwa [codeFor, hpath] at hcode

/-- **A bad header line**: the request is rejected, and answered with the start page and a 200. -/
theorem not_statusLine_badHeader :
    (∃ request readBuf, HttpRequest.blank.parse HttpRequest.noDb (received badHeader).readBuf
      = .ok (false, request, readBuf)) ∧
    AnswersWith [] oneFile HttpRequest.noDb (received badHeader) 200 ∧
    ¬ AnswersWith [] oneFile HttpRequest.noDb (received badHeader) 400 := by
  obtain ⟨request, readBuf, hparse, hpath⟩ : ∃ request readBuf, HttpRequest.blank.parse
      HttpRequest.noDb (received badHeader).readBuf = .ok (false, request, readBuf) ∧
      request.path = str "/index.html" := ⟨_, _, rfl, rfl⟩
  have h : Answerable [] oneFile HttpRequest.noDb (received badHeader) false request readBuf :=
    answerable_received hparse (by decide) (by
      rw [answer_eq, hpath]
      cases request.isKeepAlive <;> decide +kernel)
  obtain ⟨c', head, hproc, hread, hcode⟩ := answersWith_status h
  refine ⟨⟨request, readBuf, hparse⟩, ⟨c', head, hproc, hread, hcode⟩, fun hbad => ?_⟩
  exact not_announces_badRequest hcode (hbad.announces hproc hread)

end HttpConn

end WebServer
