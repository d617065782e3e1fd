import WebServer.Http.Head
import WebServer.Http.Process
import WebServer.Machinery.Machine

/-!
# Http/Gather — when the gather list is the response that `process` made

`Exact` says that the gather list of a connection is one response and nothing else.
`process_exact_iff` says when `process` leaves it so, by the state it starts in: `Clear` is what the
connection must not have kept of earlier responses, and that the sizes fit an `int`.
`history_exact` is what follows for the histories of a connection's slot.
-/

namespace WebServer

namespace HttpResponse

variable {r : HttpResponse} {sys : Sys}

theorem file_init (r : HttpResponse) (srcDir path : Bytes) (keepAlive : Bool) (code : ℤ) :
    (r.init srcDir path keepAlive code).1.file = none := by
  rw [init, unmapFile]
  cases h : r.file <;> simp [h]

theorem file_settled : (r.settled sys).file = r.file := by rw [settled_eq]

/-- The size of the file that is sent behind the head. -/
def fileSize (r : HttpResponse) (sys : Sys) : ℕ :=
  if ((r.settled sys).mapping sys).isSome then (r.settled sys).fileStat.size else 0

theorem fileSize_none (h : (r.settled sys).mapping sys = none) : r.fileSize sys = 0 := by
  rw [fileSize, h]
  rfl

theorem fileSize_some {addr : ℕ} (h : (r.settled sys).mapping sys = some addr) :
    r.fileSize sys = (r.settled sys).fileStat.size := by
  rw [fileSize, h]
  rfl

end HttpResponse

namespace HttpConn

variable {srcDir : Bytes} {sys : Sys} {db : Mysql} {c c' : HttpConn} {r : HttpResponse}

/-- The gather list is the head `head` and the mapped file, if there is one. -/
structure Exact (head : Bytes) (c : HttpConn) : Prop where
  count : c.iovCount = 1 ∨ c.iovCount = 2
  covers : c.iov1.len = 0 ∨ c.iovCount = 2
  readable : c.writeBuf.readable = head
  entry0 : c.iov0 = ⟨.writeBuf, c.writeBuf.readPos, head.length⟩
  mapped : ∀ addr, c.response.file = some addr → c.iov1.len = c.response.fileStat.size ∧
    (c.iov1.len = 0 ∨ c.iov1.block = .mapping addr ∧ c.iov1.offset = 0)
  unmapped : c.response.file = none → c.iov1.len = 0
  bytes : c.getBytesToWrite = head.length + c.iov1.len

/-- The response to the request in the read buffer, as `process` hands it to `makeResponse`. -/
def pending (srcDir : Bytes) (db : Mysql) (c : HttpConn) : Exec HttpResponse := do
  let (parsed, request, _) ← HttpRequest.blank.parse db c.readBuf
  return (c.response.init srcDir request.path (if parsed then request.isKeepAlive else false)
    (if parsed then 200 else 400)).1

/-- Nothing of an earlier response is in the way of `r`: the write buffer is drained, the entries
that `r` will use are not counted yet, and a second entry that it will not use is empty.  What there
is to send fits an `int`. -/
structure Clear (sys : Sys) (r : HttpResponse) (c : HttpConn) : Prop where
  drained : c.writeBuf.readable = []
  count : c.iovCount = 0 ∨ c.iovCount = 1 ∧ r.fileSize sys = 0
  stale : r.fileSize sys = 0 → c.iov1.len = 0
  size_lt : (r.head sys).length + r.fileSize sys < 2 ^ 31

/-! ## One call of `process` -/

/-- Without bytes to send behind the head, `_iov[1]` stays what it was. -/
theorem setIov_skip {p : ℕ} (h : c.response.file = none ∨ c.response.getFileLen ≤ 0) :
    c.setIov p = { c with
      iov0 := ⟨.writeBuf, p, c.writeBuf.getReadableBytes⟩, iovCount := c.iovCount + 1 } := by
  rw [setIov, HttpResponse.getFile]
  cases hfile : c.response.file with
  | none => rfl
  | some addr =>
    have hlen : c.response.getFileLen ≤ 0 := h.resolve_left (by simp [hfile])
    exact if_neg (Int.not_lt.mpr hlen)

theorem setIov_file {p addr : ℕ} (hfile : c.response.file = some addr)
    (hlen : 0 < c.response.getFileLen) :
    c.setIov p = { c with
      iov0 := ⟨.writeBuf, p, c.writeBuf.getReadableBytes⟩
      iov1 := ⟨.mapping addr, 0, c.response.getFileLen.toNat⟩
      iovCount := c.iovCount + 2 } := by
  rw [setIov, HttpResponse.getFile]
  simp only [hfile, if_pos hlen]

theorem setIov_members (p : ℕ) (c : HttpConn) : (c.setIov p).toMembers = c.toMembers := by
  rw [setIov]
  dsimp only
  split
  · split <;> rfl
  · rfl

theorem setIov_open (p : ℕ) (c : HttpConn) :
    (c.setIov p).fd = c.fd ∧ (c.setIov p).isClosed = c.isClosed := by
  rw [setIov]
  dsimp only
  split
  · split <;> exact ⟨rfl, rfl⟩
  · exact ⟨rfl, rfl⟩

/-- The two ways in which `_iov[1]` can meet the file, for a size that fits an `int`. -/
theorem fileSize_cases {p : ℕ} {writeBuf : Buffer} (hc : c.response = { r.settled sys with
      file := (r.settled sys).mapping sys }) (hb : c.writeBuf = writeBuf)
    (hsize : r.fileSize sys < 2 ^ 31) :
    (r.fileSize sys = 0 ∧ c.setIov p = { c with
      iov0 := ⟨.writeBuf, p, writeBuf.getReadableBytes⟩, iovCount := c.iovCount + 1 }) ∨
    (r.fileSize sys ≠ 0 ∧ ∃ addr, c.response.file = some addr ∧ c.setIov p = { c with
      iov0 := ⟨.writeBuf, p, writeBuf.getReadableBytes⟩
      iov1 := ⟨.mapping addr, 0, r.fileSize sys⟩
      iovCount := c.iovCount + 2 }) := by
  subst hb
  cases hmap : (r.settled sys).mapping sys with
  | none =>
    have hfile : c.response.file = none := by rw [hc, hmap]
    exact .inl ⟨HttpResponse.fileSize_none hmap, setIov_skip (.inl hfile)⟩
  | some addr =>
    have hfile : c.response.file = some addr := by rw [hc, hmap]
    have hsz := HttpResponse.fileSize_some hmap
    have hlen : c.response.getFileLen = r.fileSize sys := by
      rw [HttpResponse.getFileLen, hc, hsz, Word.int32_of_lt (hsz ▸ hsize)]
    by_cases h0 : r.fileSize sys = 0
    · exact .inl ⟨h0, setIov_skip (.inr (by omega))⟩
    · refine .inr ⟨h0, addr, hfile, ?_⟩
      rw [setIov_file hfile (by rw [hlen]; omega), hlen, Int.toNat_natCast]

/-- What a call of `process` that answers leaves behind, with the buffer's part done. -/
theorem process_eq (hp : pending srcDir db c = .ok r)
    (h : process srcDir sys db c = .ok (true, c')) (hok : c.writeBuf.Ok)
    (hroom : c.writeBuf.writePos + (r.head sys).length + 1 < 2 ^ 64) :
    ∃ request readBuf writeBuf, c.writeBuf.Extends writeBuf (r.head sys) ∧
      c' = { c with
        request, readBuf, writeBuf
        response := { r.settled sys with file := (r.settled sys).mapping sys } }.setIov
          writeBuf.readPos := by
  obtain ⟨-, hmore, -⟩ | ⟨-, -, parsed, request, readBuf, response, writeBuf, calls, p, hparse,
    hmake, hget, rfl⟩ := process_cases h
  · cases hmore
  · rw [pending, hparse, ok_bind] at hp
    have hr := Except.ok.inj hp
    have hfile : r.file = none := hr ▸ HttpResponse.file_init _ _ _ _ _
    obtain ⟨b', calls', he, hext⟩ := HttpResponse.makeResponse_eq hok hroom
    rw [hr, he] at hmake
    obtain ⟨rfl, hb⟩ := Prod.mk.inj (Except.ok.inj hmake)
    obtain ⟨rfl, -⟩ := Prod.mk.inj hb
    rw [Buffer.getReadPos_eq hext.buf_ne] at hget
    obtain rfl := Except.ok.inj hget
    refine ⟨request, readBuf, b', hext, ?_⟩
    rw [HttpResponse.file_settled, hfile, Option.or_none]

/-- **When a response has the gather list to itself.** -/
theorem process_exact_iff (hp : pending srcDir db c = .ok r)
    (h : process srcDir sys db c = .ok (true, c')) (hok : c.writeBuf.Ok)
    (hroom : c.writeBuf.writePos + (r.head sys).length + 1 < 2 ^ 64) :
    Exact (r.head sys) c' ↔ Clear sys r c := by
  obtain ⟨request, readBuf, writeBuf, hext, hc'⟩ := process_eq hp h hok hroom
  have hlen : writeBuf.getReadableBytes = (c.writeBuf.readable ++ r.head sys).length := by
    rw [hext.ok.getReadableBytes_eq, hext.readable]
  have hbuf : c'.writeBuf = writeBuf := by rw [hc', setIov_members]
  have hresp : c'.response = { r.settled sys with file := (r.settled sys).mapping sys } := by
    rw [hc', setIov_members]
  have hcases := fun hsize => fileSize_cases (p := writeBuf.readPos) (c := { c with
    request, readBuf, writeBuf
    response := { r.settled sys with file := (r.settled sys).mapping sys } }) rfl rfl hsize
  constructor
  · intro he
    have hfile : c'.iov1.len = r.fileSize sys := by
      cases hmap : (r.settled sys).mapping sys with
      | none => rw [HttpResponse.fileSize_none hmap, he.unmapped (by rw [hresp, hmap])]
      | some addr =>
        rw [HttpResponse.fileSize_some hmap, (he.mapped addr (by rw [hresp, hmap])).1, hresp]
    have hsize : (r.head sys).length + r.fileSize sys < 2 ^ 31 := by
      have hbytes := he.bytes
      rw [hfile] at hbytes
      have := Word.int32_lt (Word.add c'.iov0.len c'.iov1.len)
      rw [getBytesToWrite] at hbytes
      omega
    have hdrained : c.writeBuf.readable = [] := by
      have hread := he.readable
      rw [hbuf, hext.readable] at hread
      exact List.append_left_eq_self.mp hread
    have hcount := he.count
    obtain ⟨h0, hiov⟩ | ⟨h0, addr, -, hiov⟩ := hcases (by omega)
    · rw [hc', hiov] at hcount hfile
      refine ⟨hdrained, ?_, fun _ => hfile.trans h0, hsize⟩
      simp only at hcount
      omega
    · rw [hc', hiov] at hcount
      refine ⟨hdrained, ?_, fun h => absurd h h0, hsize⟩
      simp only at hcount
      omega
  · intro hclear
    have hsize := hclear.size_lt
    have hcount := hclear.count
    have hread : writeBuf.readable = r.head sys := by
      rw [hext.readable, hclear.drained, List.nil_append]
    rw [hclear.drained, List.nil_append] at hlen
    obtain ⟨h0, hiov⟩ | ⟨h0, addr, hfile, hiov⟩ := hcases (by omega)
    · have hstale := hclear.stale h0
      rw [hiov] at hc'
      subst hc'
      refine ⟨by simp only; omega, .inl hstale, hread, by simp only [hlen], fun addr hmap => ?_,
        fun _ => hstale, ?_⟩
      · exact ⟨by rw [hstale, ← h0, HttpResponse.fileSize_some hmap], .inl hstale⟩
      · rw [getBytesToWrite]
        simp only [hlen, hstale]
        rw [Word.add_of_lt (by omega), Word.int32_of_lt (by omega)]
        rfl
    · rw [hiov] at hc'
      subst hc'
      refine ⟨by simp only; omega, by simp only; omega, hread, by simp only [hlen],
        fun addr' hmap => ?_, fun hmap => ?_, ?_⟩
      · obtain rfl := Option.some.inj (hmap.symm.trans hfile)
        exact ⟨HttpResponse.fileSize_some hmap, .inr ⟨rfl, rfl⟩⟩
      · exact absurd (hmap.symm.trans hfile) (by simp)
      · rw [getBytesToWrite]
        simp only [hlen]
        rw [Word.add_of_lt (by omega), Word.int32_of_lt (by omega)]
        exact Int.natCast_add _ _

/-! ## The histories of a slot -/

/-- What happens to a connection's slot.  `receive` leaves anything at all in the read buffer. -/
inductive Op where
  | init (socketFd userCount : ℤ)
  | receive (readBuf : Buffer)
  | process (srcDir : Bytes) (sys : Sys) (db : Mysql)
  | write (isET : Bool) (files : ℕ → Bytes) (io : ℕ → Writev)
  | closeConn (userCount : ℤ)

/-- A slot, and the head of the response if the last step was a `process` that made one. -/
structure Slot where
  conn : HttpConn
  answered : Option Bytes

/-- A slot from the constructor on.  The constructor leaves `_iov` and the request's state as it
finds them. -/
def history (readAbi writeAbi : Abi Members) (iov0 iov1 : Iovec) (state : ParseState) :
    Machine Fault Slot Op where
  init s := s = ⟨new iov0 iov1 state, none⟩
  legal _ _ := True
  exec s
    | .init socketFd userCount => do
      let (conn, _) ← s.conn.init readAbi writeAbi socketFd userCount
      return ⟨conn, none⟩
    | .receive readBuf => return ⟨{ s.conn with readBuf }, none⟩
    | .process srcDir sys db => do
      let (more, conn) ← process srcDir sys db s.conn
      if more then
        let r ← pending srcDir db s.conn
        return ⟨conn, some (r.head sys)⟩
      else return ⟨conn, none⟩
    | .write isET files io => do
      let (_, out) ← write writeAbi files isET io ⟨s.conn, [], 0, 0⟩
      return ⟨out.conn, none⟩
    | .closeConn userCount => return ⟨(s.conn.closeConn userCount).1, none⟩

/-- Where `process` is called, the write buffer's cursors are in order with room behind them, and
nothing of an earlier response is in the way. -/
def Clears (s : Slot) : Op → Prop
  | .process srcDir sys db => ∀ r, pending srcDir db s.conn = .ok r →
    s.conn.writeBuf.Ok ∧ s.conn.writeBuf.writePos + (r.head sys).length + 1 < 2 ^ 64 ∧
      Clear sys r s.conn
  | _ => True

/-- **In a history whose `process` steps all find the slot clear, every response has the gather list
to itself.** -/
theorem history_exact {readAbi writeAbi : Abi Members} {iov0 iov1 : Iovec} {state : ParseState}
    {c : HttpConn} {head : Bytes}
    (h : ((history readAbi writeAbi iov0 iov1 state).restrict Clears).Reach ⟨c, some head⟩) :
    Exact head c := by
  have hinv : ∀ s, ((history readAbi writeAbi iov0 iov1 state).restrict Clears).Reach s →
      ∀ head, s.answered = some head → Exact head s.conn := by
    intro s hs
    refine hs.invariant (I := fun s => ∀ head, s.answered = some head → Exact head s.conn)
      (fun s hinit head hans => ?_) fun s op s' _ hlegal he head hans => ?_
    · rw [hinit] at hans
      cases hans
    · cases op with
      | init socketFd userCount =>
        obtain ⟨_, -, he⟩ := bind_eq_ok.mp he
        cases he
        cases hans
      | receive readBuf =>
        cases he
        cases hans
      | process srcDir sys db =>
        obtain ⟨⟨more, conn⟩, hproc, he⟩ := bind_eq_ok.mp he
        cases more with
        | false =>
          cases he
          cases hans
        | true =>
          obtain ⟨r, hpend, he⟩ := bind_eq_ok.mp he
          cases he
          obtain rfl := Option.some.inj hans
          obtain ⟨hok, hroom, hclear⟩ := hlegal.2 r hpend
          exact (process_exact_iff hpend hproc hok hroom).mpr hclear
      | write isET files io =>
        obtain ⟨_, -, he⟩ := bind_eq_ok.mp he
        cases he
        cases hans
      | closeConn userCount =>
        cases he
        cases hans
  exact hinv _ h head rfl

/-- A system with one file of two bytes, mapped at 4096. -/
def oneFile : Sys :=
  ⟨fun _ => some ⟨0o100644, 2⟩, fun _ => none, fun _ => some 7, fun _ _ => some 4096⟩

/-- A slot whose gather list the constructor found empty. -/
def emptySlot : HttpConn := new ⟨.wild 0, 0, 0⟩ ⟨.wild 0, 0, 0⟩ .requestLine

/-- The slot from its constructor on, on a platform. -/
def visits (readAbi writeAbi : Abi Members) : Machine Fault Slot Op :=
  history readAbi writeAbi ⟨.wild 0, 0, 0⟩ ⟨.wild 0, 0, 0⟩ .requestLine

def startRequest : Buffer := HttpRequest.bufferOf (str "GET / HTTP/1.1\r\n\r\n")

theorem exists_pending (c : HttpConn) :
    ∃ r, pending [] HttpRequest.noDb { c with readBuf := startRequest } = .ok r := by
  obtain ⟨out, hparse⟩ : ∃ out, HttpRequest.blank.parse HttpRequest.noDb startRequest = .ok out :=
    ⟨_, rfl⟩
  rw [pending, hparse, ok_bind]
  exact ⟨_, rfl⟩

/-- The start page is asked for, and once more. -/
theorem exists_visits : ∃ c₁ c₂ : HttpConn,
    process [] oneFile HttpRequest.noDb { emptySlot with readBuf := startRequest }
      = .ok (true, c₁) ∧
    process [] oneFile HttpRequest.noDb { c₁ with readBuf := startRequest } = .ok (true, c₂) ∧
    c₁.iovCount = 2 ∧ c₂.iovCount = 4 := by
  have hcounts : (do
      let (more₁, c₁) ←
        process [] oneFile HttpRequest.noDb { emptySlot with readBuf := startRequest }
      let (more₂, c₂) ← process [] oneFile HttpRequest.noDb { c₁ with readBuf := startRequest }
      return (more₁, more₂, c₁.iovCount, c₂.iovCount)) = .ok (true, true, 2, 4) := by
    decide +kernel
  obtain ⟨⟨more₁, c₁⟩, hfirst, hcounts⟩ := bind_eq_ok.mp hcounts
  obtain ⟨⟨more₂, c₂⟩, hsecond, hcounts⟩ := bind_eq_ok.mp hcounts
  obtain ⟨rfl, hrest⟩ := Prod.mk.inj (Except.ok.inj hcounts)
  obtain ⟨rfl, hcount⟩ := Prod.mk.inj hrest
  exact ⟨c₁, c₂, hfirst, hsecond, Prod.mk.inj hcount⟩

/-- A request that is answered. -/
theorem visits_exec (readAbi writeAbi : Abi Members) {answered : Option Bytes}
    (hproc : process srcDir sys db c = .ok (true, c')) (hp : pending srcDir db c = .ok r) :
    (visits readAbi writeAbi).exec ⟨c, answered⟩ (.process srcDir sys db)
      = .ok ⟨c', some (r.head sys)⟩ :=
  bind_eq_ok.mpr ⟨_, hproc, bind_eq_ok.mpr ⟨r, hp, rfl⟩⟩

theorem clears_first :
    Clears ⟨{ emptySlot with readBuf := startRequest }, none⟩
      (.process [] oneFile HttpRequest.noDb) := by
  intro r hr
  have hpend : pending [] HttpRequest.noDb { emptySlot with readBuf := startRequest }
      = .ok ⟨200, false, str "/index.html", [], none, ⟨0, 0⟩⟩ := rfl
  obtain rfl := Except.ok.inj (hpend.symm.trans hr)
  exact ⟨Buffer.new_ok (by decide), by decide +kernel, Buffer.readable_new 1024, .inl rfl,
    by decide, by decide⟩

/-- The first visit, on any platform. -/
theorem history_exact_visited : ∃ c head,
    (∀ readAbi writeAbi, (visits readAbi writeAbi).Reach ⟨c, some head⟩) ∧ Exact head c ∧
      c.iovCount = 2 := by
  obtain ⟨c₁, c₂, hfirst, -, hcount, -⟩ := exists_visits
  obtain ⟨r, hp⟩ := exists_pending emptySlot
  have hreach : ∀ readAbi writeAbi,
      ((visits readAbi writeAbi).restrict Clears).Reach ⟨c₁, some (r.head oneFile)⟩ :=
    fun readAbi writeAbi =>
      .step (o := .process [] oneFile HttpRequest.noDb)
        (.step (o := .receive startRequest) (.init rfl) ⟨trivial, trivial⟩ rfl)
        ⟨trivial, clears_first⟩ (visits_exec readAbi writeAbi hfirst hp)
  exact ⟨c₁, _, fun readAbi writeAbi => (hreach readAbi writeAbi).of_restrict,
    history_exact (hreach emptied emptied), hcount⟩

/-- **After a second visit four entries are counted**, on every platform. -/
theorem not_exact_revisited : ¬ ∃ readAbi writeAbi, ∀ c head,
    (visits readAbi writeAbi).Reach ⟨c, some head⟩ → Exact head c := by
  rintro ⟨readAbi, writeAbi, h⟩
  obtain ⟨c₁, c₂, hfirst, hsecond, -, hcount⟩ := exists_visits
  obtain ⟨r₁, hp₁⟩ := exists_pending emptySlot
  obtain ⟨r₂, hp₂⟩ := exists_pending c₁
  have h₁ : (visits readAbi writeAbi).Reach ⟨c₁, some (r₁.head oneFile)⟩ :=
    .step (o := .process [] oneFile HttpRequest.noDb)
      (.step (o := .receive startRequest) (.init rfl) trivial rfl) trivial
      (visits_exec readAbi writeAbi hfirst hp₁)
  have h₂ : (visits readAbi writeAbi).Reach ⟨c₂, some (r₂.head oneFile)⟩ :=
    .step (o := .process [] oneFile HttpRequest.noDb)
      (.step (o := .receive startRequest) h₁ trivial rfl) trivial
      (visits_exec readAbi writeAbi hsecond hp₂)
  have hexact := (h _ _ h₂).count
  rw [hcount] at hexact
  exact absurd hexact (by decide)

end HttpConn

end WebServer
