import WebServer.Http.Files
import WebServer.Http.Write

/-!
# Http/Exchange — a request and what its client receives

`serve` is the server as its clients know it: a site has something under each path, and a message is
answered with a `Reply`.  `exchange_refines` connects it to the code, for the first response of a
connection, with nothing of an earlier one counted or left to be sent: `process` on the text of a
message, and any calls of `write` after it, put the text of that reply on the socket, and nothing
else.  `Carries.run_sends` is the progress behind it: a call whose socket takes anything sends
something, until all is sent.
-/

namespace WebServer

namespace HttpConn

variable {abi : Abi Members} {files : ℕ → Bytes} {isET : Bool} {io : ℕ → Writev} {v₁ : Iovec}
  {R : Bytes} {c : HttpConn} {s : Sending}

/-! ## Progress -/

/-- **A pass on a backed response** stops where it is, or retrieves what it has sent. -/
theorem Carries.writePass_cases (h : Carries files v₁ R True s) (abi : Abi Members) (isET : Bool)
    (io : ℕ → Writev) :
    (∃ len s', writePass abi files isET io s = .ok (.exit (len, s')) ∧ s'.conn = s.conn ∧
      s'.sent = s.sent ∧ ((io s.calls).ret ≤ 0 ∨ s.conn.iov0.len + s.conn.iov1.len = 0)) ∨
    ∃ s' l, Carries files v₁ R True s' ∧ s.sent.length < s'.sent.length ∧
      l = min (io s.calls).ret.toNat (s.conn.iov0.len + s.conn.iov1.len) ∧
      s.conn.took abi l = .ok s'.conn ∧
      s'.conn.iov0.len + s'.conn.iov1.len + l = s.conn.iov0.len + s.conn.iov1.len ∧ 0 < l ∧
      (writePass abi files isET io s = .ok (.next s') ∨
        ∃ len, writePass abi files isET io s = .ok (.exit (len, s'))) := by
  by_cases hstop : (io s.calls).ret ≤ 0 ∨ s.conn.iov0.len + s.conn.iov1.len = 0
  · exact .inl ⟨_, _, h.lists.writePass_stop hstop, rfl, rfl, hstop⟩
  · have hpass := @Lists.writePass_took files abi isET io v₁ s h.lists _ rfl (by omega)
    generalize hn : min (io s.calls).ret.toNat (s.conn.iov0.len + s.conn.iov1.len) = n at hpass
    obtain ⟨c', he, -, hlen, hcarries⟩ | ⟨-, hp⟩ := h.took abi (n := n) (by omega) (by omega)
    · refine .inr ⟨_, n, hcarries, ?_, rfl, he, by simp only [hlen]; omega, by omega, ?_⟩
      · simp only [List.length_append, List.length_take, h.lists.length_rest]
        omega
      · rw [hpass, he, ok_bind]
        simp only [pure_eq_ok]
        split
        · exact .inl rfl
        · exact .inr ⟨n, rfl⟩
    · exact absurd trivial hp

/-- What a retrieval of bytes that the gather list describes keeps. -/
def Kept (abi : Abi Members) (I : HttpConn → Prop) : Prop :=
  ∀ t l t', I t → l ≤ t.iov0.len + t.iov1.len → t.took abi l = .ok t' → I t'

variable {I : HttpConn → Prop}

/-- **A loop on a backed response leaves, with the response whole**, and takes nothing back. -/
theorem Carries.run_sends (h : Carries files v₁ R True s) (hkept : Kept abi I) (hI : I s.conn)
    (isET : Bool) (io : ℕ → Writev) {n : ℕ} (hn : s.conn.iov0.len + s.conn.iov1.len < n) :
    ∃ len s', Loop.run .running (writePass abi files isET io) n s = .ok (len, s') ∧
      (Carries files v₁ R True s' ∧ I s'.conn) ∧ s.sent.length ≤ s'.sent.length := by
  refine Loop.run_total
    (I := fun t => (Carries files v₁ R True t ∧ I t.conn) ∧ s.sent.length ≤ t.sent.length)
    (v := fun t => t.conn.iov0.len + t.conn.iov1.len)
    (Q := fun out => ∃ len s', out = .ok (len, s') ∧ (Carries files v₁ R True s' ∧ I s'.conn) ∧
      s.sent.length ≤ s'.sent.length) (fun t ht => ?_) n s ⟨⟨h, hI⟩, le_rfl⟩ hn
  obtain ⟨⟨hc, hIt⟩, hle⟩ := ht
  obtain ⟨len, t', he, hconn, hsent, -⟩ |
    ⟨t', l, hcarries, hmore, hl, htook, hless, hpos, he | ⟨len, he⟩⟩ :=
      hc.writePass_cases abi isET io
  · rw [he]
    refine ⟨len, t', rfl, ⟨⟨hconn ▸ hc.lists, ?_, fun _ => hconn ▸ hc.backed trivial⟩,
      hconn ▸ hIt⟩, hsent ▸ hle⟩
    rw [hsent, hconn, hc.whole]
  · rw [he]
    have hdec : t'.conn.iov0.len + t'.conn.iov1.len < t.conn.iov0.len + t.conn.iov1.len := by omega
    exact ⟨⟨⟨hcarries, hkept _ _ _ hIt (by omega) htook⟩, hle.trans hmore.le⟩, hdec⟩
  · rw [he]
    exact ⟨len, t', rfl, ⟨hcarries, hkept _ _ _ hIt (by omega) htook⟩, hle.trans hmore.le⟩

end HttpConn

namespace HttpResponse

open HttpRequest

/-! ## Sites and replies -/

/-- What a site has under a path. -/
inductive Resource where
  | missing
  /-- A file that others may not read. -/
  | forbidden
  | file (content : Bytes)

/-- What a site has under each path, and the pages it can show for an error. -/
structure Site where
  resource : Bytes → Resource
  page : Bytes → Option Bytes

/-- The type that is announced for a path. -/
def typeOf (path : Bytes) : Bytes := { new with path }.getFileType

/-- The page that stands in for a file. -/
def stub (code : ℤ) : Bytes := { new with code }.errorBody (str "File NotFound!")

/-- A reply: its code, the path of what is shown, whether the connection is kept, and what is shown
of the site. -/
structure Reply where
  code : ℤ
  path : Bytes
  keepAlive : Bool
  shown : Option Bytes

namespace Reply

def body (a : Reply) : Bytes := a.shown.getD (stub a.code)

/-- The reply as it is sent. -/
def frame (a : Reply) : Frame where
  code := a.code
  text := (STATUS_CODE.lookup a.code).getD []
  fields := connFields a.keepAlive ++
    [(str "Content-type", typeOf a.path), (str "Content-length", Decimal.print a.body.length)]
  body := a.body

end Reply

/-- **What a site shows for a path.** -/
def Site.reply (site : Site) (path : Bytes) (keepAlive : Bool) : Reply :=
  match site.resource path with
  | .file content => ⟨200, path, keepAlive, some content⟩
  | .forbidden => ⟨403, str "/403.html", keepAlive, site.page (str "/403.html")⟩
  | .missing => ⟨404, str "/404.html", keepAlive, site.page (str "/404.html")⟩

/-- The file `name` can be opened and mapped, and is `content`. -/
structure Readable (files : ℕ → Bytes) (sys : Sys) (name content : Bytes) : Prop where
  mmap : ∃ fd addr, sys.openFile name = some fd ∧ sys.mmap content.length fd = some addr ∧
    files addr = content
  pos : 0 < content.length

/-- The directory `srcDir` of a system holds the site.  A page that the site does not have cannot be
mapped, whatever size it is taken to have. -/
structure Hosts (files : ℕ → Bytes) (srcDir : Bytes) (sys : Sys) (site : Site) : Prop where
  file : ∀ path content, site.resource path = .file content →
    Readable files sys (cstr (srcDir ++ path)) content ∧
      ∃ st, sys.stat (cstr (srcDir ++ path)) = some st ∧ st.isDir = false ∧ st.othersRead = true ∧
        st.size = content.length
  forbidden : ∀ path, site.resource path = .forbidden →
    ∃ st, sys.stat (cstr (srcDir ++ path)) = some st ∧ st.isDir = false ∧ st.othersRead = false
  missing : ∀ path, site.resource path = .missing →
    ∀ st, sys.stat (cstr (srcDir ++ path)) = some st → st.isDir = true
  page : ∀ entry ∈ ERROR_CODE, ∀ content, site.page entry.2 = some content →
    Readable files sys (cstr (srcDir ++ entry.2)) content ∧
      ∃ st, sys.statPage (cstr (srcDir ++ entry.2)) = some st ∧ st.size = content.length
  noPage : ∀ entry ∈ ERROR_CODE, site.page entry.2 = none →
    ∀ size, (sys.openFile (cstr (srcDir ++ entry.2))).bind (sys.mmap size) = none

/-! ## The settled response says the reply -/

variable {files : ℕ → Bytes} {srcDir : Bytes} {sys : Sys} {site : Site} {s r : HttpResponse}
  {a : Reply}

/-- A settled response is about to say a reply: what is shown is mapped. -/
structure Says (files : ℕ → Bytes) (sys : Sys) (s : HttpResponse) (a : Reply) : Prop where
  code : s.code = a.code
  path : s.path = a.path
  keepAlive : s.keepAlive = a.keepAlive
  shown : ∀ content, a.shown = some content → ∃ addr, s.mapping sys = some addr ∧
    files addr = content ∧ s.fileStat.size = content.length ∧ 0 < content.length
  hidden : a.shown = none → s.mapping sys = none

/-- **The frame of the response is that of the reply**, but for what is shown. -/
theorem Says.frame_eq (h : Says files sys s a) :
    a.frame = { s.frame sys with body := a.body } ∧
      a.body = (s.frame sys).body ++ a.shown.getD [] := by
  obtain ⟨code, path, keepAlive, shown⟩ := a
  obtain ⟨rfl, rfl, rfl, hshown, hhidden⟩ := h
  cases shown with
  | none =>
    have hmap := hhidden rfl
    simp only [frame, Reply.frame, Reply.body, hmap, Option.isSome_none, Bool.false_eq_true,
      if_false, Option.getD_none, List.append_nil]
    exact ⟨rfl, rfl⟩
  | some content =>
    obtain ⟨addr, hmap, -, hsize, -⟩ := hshown content rfl
    simp only [frame, Reply.frame, Reply.body, hmap, hsize, Option.isSome_some, if_true,
      Option.getD_some, List.nil_append]
    exact ⟨rfl, trivial⟩

/-- **The head of the response and what is shown are the reply.** -/
theorem Says.print_eq (h : Says files sys s a) :
    (s.frame sys).print ++ a.shown.getD [] = a.frame.print := by
  obtain ⟨hframe, hbody⟩ := h.frame_eq
  rw [hframe, hbody, Frame.print, Frame.print, List.append_assoc]
  rfl

/-- The reply is well framed, and measures itself. -/
theorem Says.wellFormed (h : Says files sys (r.settled sys) a) :
    a.frame.WellFormed ∧ a.frame.Measures a.body.length := by
  have hwf := wellFormed_settled r sys
  obtain ⟨hframe, hbody⟩ := h.frame_eq
  rw [hframe]
  refine ⟨⟨hwf.code, hwf.text, hwf.names, hwf.lines⟩, ?_⟩
  cases hshown : a.shown with
  | none =>
    obtain ⟨value, hvalues, hvalue⟩ := measures_page (h.hidden hshown)
    refine ⟨value, hvalues, ?_⟩
    rw [hbody, hshown, Option.getD_none, List.append_nil]
    exact hvalue
  | some content =>
    obtain ⟨addr, hmap, -, hsize, -⟩ := h.shown content hshown
    obtain ⟨value, hvalues, hvalue⟩ := (measures_file hmap).1
    refine ⟨value, hvalues, ?_⟩
    rw [Reply.body, hshown, Option.getD_some, ← hsize]
    exact hvalue

/-- An error is settled as its page. -/
theorem says_error (h : Hosts files srcDir sys site) {code : ℤ} {page : Bytes}
    (hdir : r.srcDir = srcDir) (hstatus : status (sys.stat r.fileName) = code)
    (hmem : (code, page) ∈ ERROR_CODE) (hpage : ERROR_CODE.lookup code = some page) :
    Says files sys (r.settled sys) ⟨code, page, r.keepAlive, site.page page⟩ := by
  have hsettled := settled_eq r sys
  rw [HttpResponse.page, hstatus, hpage] at hsettled
  dsimp only [Option.getD_some, Option.bind_some] at hsettled
  refine ⟨by rw [hsettled], by rw [hsettled], by rw [hsettled], fun content hsite => ?_,
    fun hsite => ?_⟩
  · obtain ⟨⟨⟨fd, addr, hopen, hmmap, hbytes⟩, hpos⟩, st, hst, hsize⟩ :=
      h.page (code, page) hmem content hsite
    dsimp only at hopen hst
    rw [hdir, hst, Option.getD_some] at hsettled
    refine ⟨addr, ?_, hbytes, by rw [hsettled, hsize], hpos⟩
    rw [hsettled, mapping]
    dsimp only
    rw [hopen, Option.bind_some, hsize, hmmap]
  · rw [hsettled, mapping]
    dsimp only
    rw [hdir]
    exact h.noPage (code, page) hmem hsite _

/-- **A response is settled as the site's reply** for its path. -/
theorem says_reply (h : Hosts files srcDir sys site) (hdir : r.srcDir = srcDir) :
    Says files sys (r.settled sys) (site.reply r.path r.keepAlive) := by
  have hname : r.fileName = cstr (srcDir ++ r.path) := by rw [fileName, hdir]
  rw [Site.reply]
  cases hres : site.resource r.path with
  | missing =>
    refine says_error h hdir ?_ (by decide) (by decide)
    rw [hname]
    cases hst : sys.stat (cstr (srcDir ++ r.path)) with
    | none => rfl
    | some st => rw [status, if_pos (h.missing _ hres st hst)]
  | forbidden =>
    obtain ⟨st, hst, hisDir, hothers⟩ := h.forbidden _ hres
    refine says_error h hdir ?_ (by decide) (by decide)
    rw [hname, hst, status, hisDir, hothers]
    rfl
  | file content =>
    obtain ⟨⟨⟨fd, addr, hopen, hmmap, hbytes⟩, hpos⟩, st, hst, hisDir, hothers, hsize⟩ :=
      h.file _ content hres
    have hsettled := settled_of_readable (hname ▸ hst) hisDir hothers
    refine ⟨by rw [hsettled], by rw [hsettled], by rw [hsettled], fun content' h => ?_,
      fun h => by cases h⟩
    obtain rfl : content = content' := Option.some.inj h
    refine ⟨addr, ?_, hbytes, by rw [hsettled, hsize], hpos⟩
    rw [hsettled]
    show (sys.openFile r.fileName).bind (sys.mmap st.size) = _
    rw [hname, hopen, Option.bind_some, hsize, hmmap]

end HttpResponse

namespace HttpConn

open HttpResponse HttpRequest

variable {abi : Abi Members} {files : ℕ → Bytes} {srcDir : Bytes} {sys : Sys} {db : Mysql}
  {c c' : HttpConn} {site : Site} {m : Message} {r : HttpResponse} {a : Reply} {parsed : Bool}
  {request : HttpRequest} {readBuf : Buffer}

/-! ## The exchange -/

/-- Nothing of an earlier response is left to be sent. -/
structure Drained (c : HttpConn) : Prop where
  ok : c.writeBuf.Ok
  drained : c.writeBuf.readable = []
  stale : c.iov1.len = 0

/-- An entry over what is readable in the write buffer describes it. -/
theorem entry_writeBuf (hok : c.writeBuf.Ok)
    (h0 : c.iov0 = ⟨.writeBuf, c.writeBuf.readPos, c.writeBuf.readable.length⟩) :
    c.iov0.Within (c.mem files) ∧ c.iov0.read (c.mem files) = c.writeBuf.readable := by
  have hwritten := hok.writePos_eq
  have hend := hok.write_le
  rw [h0]
  refine ⟨.inr ?_, ?_⟩
  · show c.writeBuf.readPos + c.writeBuf.readable.length ≤ c.writeBuf.buf.length
    omega
  · show (c.writeBuf.buf.drop c.writeBuf.readPos).take c.writeBuf.readable.length = _
    rw [hok.length_readable, Buffer.readable]

/-- An entry over the whole of a mapped file describes it. -/
theorem entry_mapping {addr : ℕ} (h1 : c.iov1 = ⟨.mapping addr, 0, (files addr).length⟩) :
    c.iov1.Within (c.mem files) ∧ c.iov1.read (c.mem files) = files addr := by
  rw [h1]
  refine ⟨.inr ?_, ?_⟩
  · show 0 + (files addr).length ≤ (files addr).length
    omega
  · show ((files addr).drop 0).take (files addr).length = _
    rw [List.drop_zero, List.take_length]

/-- The reply `a` has been put on the connection `c`, which is then `c'`: how far `_iov_count` has
gone up, and what is on its way if it has not gone too far. -/
structure Queues (files : ℕ → Bytes) (a : Reply) (c c' : HttpConn) : Prop where
  count : c'.iovCount = c.iovCount + if a.shown.isSome then 2 else 1
  carries : c'.iovCount ≤ 2 → Carries files c'.iov1 a.frame.print True ⟨c', [], 0, 0⟩
  ok : c'.writeBuf.Ok
  backed : c'.writeBuf.readable.length = c'.iov0.len
  stale : a.shown = none → c'.iov1.len = 0
  room : c'.writeBuf.writePos ≤ c.writeBuf.writePos + a.frame.print.length

theorem Queues.count_le (h : Queues files a c c') : c'.iovCount ≤ c.iovCount + 2 := by
  rw [h.count]
  split <;> omega

/-- **What `process` leaves of a drained connection** has the reply on it. -/
theorem queues_answer (hdrained : Drained c) {writeBuf : Buffer}
    (hext : c.writeBuf.Extends writeBuf (r.head sys)) (hshows : Says files sys (r.settled sys) a)
    (hsize : a.frame.print.length < 2 ^ 31)
    (hc' : c' = { c with
      request, readBuf, writeBuf
      response := { r.settled sys with file := (r.settled sys).mapping sys } }.setIov
        writeBuf.readPos) : Queues files a c c' := by
  have hprint := hshows.print_eq
  rw [← head_eq] at hprint
  have hlens := congrArg List.length hprint
  rw [List.length_append] at hlens
  have hbuf : c'.writeBuf = writeBuf := by rw [hc', setIov_members]
  have hok : c'.writeBuf.Ok := hbuf ▸ hext.ok
  have hread : c'.writeBuf.readable = r.head sys := by
    rw [hbuf, hext.readable, hdrained.drained, List.nil_append]
  have hroom : c'.writeBuf.writePos ≤ c.writeBuf.writePos + a.frame.print.length := by
    have := hext.writePos_le
    rw [hbuf]
    omega
  have hcases := @fileSize_cases sys { c with
    request, readBuf, writeBuf
    response := { r.settled sys with file := (r.settled sys).mapping sys } } r writeBuf.readPos
      writeBuf rfl rfl
  rw [← hc'] at hcases
  cases hshown : a.shown with
  | some content =>
    obtain ⟨addr, hmap, rfl, hfile, hpos⟩ := hshows.shown content hshown
    rw [hshown, Option.getD_some] at hprint hlens
    have hlen : r.fileSize sys = (files addr).length := by rw [fileSize_some hmap, hfile]
    obtain ⟨hzero, -⟩ | ⟨-, addr', haddr, hiov⟩ := hcases (by omega)
    · omega
    obtain rfl : addr = addr' := Option.some.inj (hmap.symm.trans haddr)
    obtain ⟨h0, h1, hc⟩ : c'.iov0 = ⟨.writeBuf, c'.writeBuf.readPos, c'.writeBuf.readable.length⟩ ∧
        c'.iov1 = ⟨.mapping addr, 0, (files addr).length⟩ ∧ c'.iovCount = c.iovCount + 2 := by
      rw [← hok.getReadableBytes_eq, hbuf, hiov, hlen]
      exact ⟨rfl, rfl, rfl⟩
    obtain ⟨hwithin0, hhead⟩ := @entry_writeBuf files c' hok h0
    obtain ⟨hwithin1, hbody⟩ := @entry_mapping files c' addr h1
    refine ⟨by rw [hc, hshown]; rfl, fun hle => ?_, hok, by rw [h0], fun h => ?_, hroom⟩
    · have hdescribes : Describes files (r.head sys) (files addr) c' :=
        ⟨hwithin0, hwithin1, hhead.trans hread, hbody, hle, fun _ => by omega, fun _ => by omega,
          fun _ => by rw [h1]; simp⟩
      have hcarries := hdescribes.carries (by omega)
      rw [hprint] at hcarries
      exact ⟨hcarries.lists, hcarries.whole, fun _ => hcarries.backed ⟨hok, hread⟩⟩
    · rw [hshown] at h
      cases h
  | none =>
    rw [hshown, Option.getD_none, List.append_nil] at hprint
    have hlen : r.fileSize sys = 0 := fileSize_none (hshows.hidden hshown)
    obtain ⟨-, hiov⟩ | ⟨hne, -⟩ := hcases (by rw [hlen]; decide)
    · obtain ⟨h0, h1, hc⟩ :
          c'.iov0 = ⟨.writeBuf, c'.writeBuf.readPos, c'.writeBuf.readable.length⟩ ∧
          c'.iov1 = c.iov1 ∧ c'.iovCount = c.iovCount + 1 := by
        rw [← hok.getReadableBytes_eq, hbuf, hiov]
        exact ⟨rfl, rfl, rfl⟩
      obtain ⟨hwithin0, hhead⟩ := @entry_writeBuf files c' hok h0
      have hempty : c'.iov1.len = 0 := by rw [h1, hdrained.stale]
      refine ⟨by rw [hc, hshown]; rfl, fun hle => ?_, hok, by rw [h0], fun _ => hempty, hroom⟩
      have hdescribes : Describes files (r.head sys) [] c' :=
        ⟨hwithin0, .inl hempty, hhead.trans hread, Span.read_of_len_eq_zero hempty, hle,
          fun _ => by omega, fun h => absurd rfl h, fun h => absurd rfl h⟩
      have hcarries := hdescribes.carries (by decide)
      rw [List.append_nil, hprint] at hcarries
      exact ⟨hcarries.lists, hcarries.whole, fun _ => hcarries.backed ⟨hok, hread.trans hprint⟩⟩
    · exact absurd hlen hne

/-- **`process` puts the site's reply on a drained connection**: to the path that was parsed, and
kept alive if parsing succeeded and the request says so. -/
theorem process_queues (hhosts : Hosts files srcDir sys site) (hdrained : Drained c)
    (hparse : blank.parse db c.readBuf = .ok (parsed, request, readBuf))
    (hpos : 0 < c.readBuf.getReadableBytes)
    (ha : site.reply request.path (if parsed then request.isKeepAlive else false) = a)
    (hroom : c.writeBuf.writePos < 2 ^ 63) (hsize : a.frame.print.length < 2 ^ 31) :
    ∃ c', process srcDir sys db c = .ok (true, c') ∧ Queues files a c c' ∧
      c'.request = request ∧ c'.readBuf = readBuf ∧ c'.fd = c.fd ∧ c'.isClosed = c.isClosed ∧
      a.frame.WellFormed ∧ a.frame.Measures a.body.length := by
  generalize hr : answer srcDir c parsed request = r
  have hfields := answer_eq srcDir c parsed request
  rw [hr] at hfields
  have hshows : Says files sys (r.settled sys) a := by
    have hreply := says_reply (r := r) hhosts (by rw [hfields])
    have hpath : r.path = request.path := by rw [hfields]
    have hkeep : r.keepAlive = if parsed then request.isKeepAlive else false := by rw [hfields]
    rwa [hpath, hkeep, ha] at hreply
  have hlens := congrArg List.length hshows.print_eq
  rw [← head_eq, List.length_append] at hlens
  obtain ⟨writeBuf, hext, hproc⟩ := process_answer
    (⟨hparse, hpos, hdrained.ok, by rw [hr]; omega⟩ :
      Answerable srcDir sys db c parsed request readBuf)
  rw [hr] at hext hproc
  refine ⟨_, hproc, queues_answer hdrained hext hshows hsize rfl, ?_, ?_, (setIov_open _ _).1,
    (setIov_open _ _).2, hshows.wellFormed⟩
  · rw [setIov_members]
  · rw [setIov_members]

end HttpConn

end WebServer
