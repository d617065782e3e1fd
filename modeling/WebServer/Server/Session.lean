import WebServer.Http.Exchange
import WebServer.Server.KeepAlive

/-!
# Server/Session — a connection that is kept alive

`parse` leaves the CRLF of the blank line in the read buffer, and `_onWrite` calls `_onProcess` once
the response to a kept-alive request is sent.  So the client is sent a second reply, to a request it
has not made, for which the connection is not kept: `session_replies` follows a connection from its
first request on, with nothing of an earlier response counted or left to be sent, and finds it never
armed for reading again.
-/

namespace WebServer

namespace HttpConn

open HttpResponse HttpRequest

variable {abi : Abi Members} {files : ℕ → Bytes} {isET : Bool} {io : ℕ → Writev} {v₁ : Iovec}
  {R S : Bytes} {p : Prop} {c t : HttpConn} {s : Sending}

/-! ## A reply that is all in the write buffer -/

/-- The connection is `c` but for what has been retrieved of its reply, which is all in the write
buffer. -/
structure Page (c t : HttpConn) : Prop where
  ok : t.writeBuf.Ok
  backed : t.writeBuf.readable.length = t.iov0.len
  room : t.writeBuf.writePos = c.writeBuf.writePos
  same : t = { c with iov0 := t.iov0, writeBuf := t.writeBuf }

theorem Page.iov1 (h : Page c t) : t.iov1 = c.iov1 := by rw [h.same]

theorem Page.fd (h : Page c t) : t.fd = c.fd := by rw [h.same]

theorem Page.isClosed (h : Page c t) : t.isClosed = c.isClosed := by rw [h.same]

theorem Page.isKeepAlive (h : Page c t) : t.isKeepAlive = c.isKeepAlive := by
  rw [h.same]
  rfl

/-- **The retrievals leave such a connection as it is**, on any platform. -/
theorem kept_page (abi : Abi Members) (hempty : c.iov1.len = 0) : Kept abi (Page c) := by
  intro t l t' h hl htook
  have hlen : ¬ t.iov0.len < l := by
    rw [h.iov1, hempty] at hl
    omega
  rw [took, if_neg hlen, h.ok.retrieve_eq (by rw [h.backed]; omega), ok_bind] at htook
  obtain rfl := Except.ok.inj htook
  refine ⟨h.ok.advance (by rw [h.backed]; omega), ?_, h.room, ?_⟩
  · rw [Buffer.readable_advance, List.length_drop, h.backed]
  · rw [h.same]

/-- A reply behind another. -/
theorem Carries.behind (h : Carries files v₁ R p ⟨c, [], 0, 0⟩) (hsent : s.sent = S) :
    Carries files v₁ (S ++ R) p { s with conn := c } := by
  refine ⟨h.lists, ?_, h.backed⟩
  have hwhole := h.whole
  rw [List.nil_append] at hwhole
  rw [hsent, hwhole]

theorem Page.refl (hok : c.writeBuf.Ok) (hbacked : c.writeBuf.readable.length = c.iov0.len) :
    Page c c := ⟨hok, hbacked, rfl, rfl⟩

/-- Once all of such a reply is sent, nothing of it is left. -/
theorem Page.drained (h : Page c t) (hempty : c.iov1.len = 0)
    (hdone : t.iov0.len + t.iov1.len = 0) : Drained t :=
  ⟨h.ok, List.length_eq_zero_iff.mp (by rw [h.backed]; omega), by rw [h.iov1, hempty]⟩

theorem Carries.left_eq_zero (h : Carries files v₁ R p s) (hsent : s.sent = R) :
    s.conn.iov0.len + s.conn.iov1.len = 0 := by
  have hrest : s.conn.rest files = [] := by
    have hwhole := h.whole
    rw [hsent] at hwhole
    exact List.append_right_eq_self.mp hwhole
  rw [← h.lists.length_rest, hrest, List.length_nil]

end HttpConn

namespace Server

open Epoller HttpConn HttpResponse HttpRequest

variable {events : Events} {srcDir : Bytes} {sys : Sys} {db : Mysql} {abi : Abi Members}
  {files : ℕ → Bytes} {io : ℕ → Writev} {userCount len : ℤ} {c c' : HttpConn} {s t : Sending}
  {site : Site} {m : Message} {R R₁ R₂ : Bytes} {v₁ : Iovec}

/-! ## `_onWrite` on an open connection -/

/-- The system calls that end a task without arming its descriptor for reading. -/
def Mute (events : Events) (fd : ℤ) (act : Act) : Prop :=
  act = .epollMod fd (events.conn ||| EPOLLOUT) ∨ act = .epollDel fd ∨ act = .close fd

theorem mute_modFd (events : Events) (fd : ℤ) :
    ∀ act ∈ modFd fd (events.conn ||| EPOLLOUT), Mute events fd act := by
  intro act hact
  rw [modFd] at hact
  split at hact
  · cases hact
  · exact .inl (List.mem_singleton.mp hact)

theorem closeConn_open (userCount : ℤ) (hopen : c.isClosed = false) :
    (closeConn userCount c).1.isClosed = true ∧
      ∀ act ∈ (closeConn userCount c).2.2, Mute events c.fd act := by
  rw [closeConn, HttpConn.closeConn, if_pos hopen]
  refine ⟨rfl, fun act hact => ?_⟩
  rcases List.mem_append.mp hact with hact | hact
  · rw [delFd] at hact
    split at hact
    · cases hact
    · exact .inr (.inl (List.mem_singleton.mp hact))
  · exact .inr (.inr (by simpa using hact))

/-- **What `_onWrite` does with what is left to send**: it arms the descriptor for it, or closes the
connection. -/
theorem afterWrite_left (srcDir : Bytes) (sys : Sys) (db : Mysql) (userCount len : ℤ)
    (hleft : s.conn.getBytesToWrite ≠ 0) (hopen : s.conn.isClosed = false) :
    ∃ t left acts, afterWrite events srcDir sys db userCount len s = .ok (t, left, acts) ∧
      (t = s ∨ t.conn.isClosed = true ∧ t.sent = s.sent) ∧
      ∀ act ∈ acts, Mute events s.conn.fd act := by
  obtain ⟨hclosed, hmute⟩ := @closeConn_open events s.conn userCount hopen
  simp only [afterWrite, if_neg hleft]
  split
  · split
    · exact ⟨s, _, _, rfl, .inl rfl, mute_modFd _ _⟩
    · exact ⟨_, _, _, rfl, .inr ⟨hclosed, rfl⟩, hmute⟩
  · exact ⟨_, _, _, rfl, .inr ⟨hclosed, rfl⟩, hmute⟩

/-! ## The session -/

/-- Calls of `_onWrite` for a connection while it is open, with the system calls that they make. -/
def session (events : Events) (srcDir : Bytes) (sys : Sys) (db : Mysql) (abi : Abi Members)
    (files : ℕ → Bytes) (userCount : ℤ) (c : HttpConn) :
    Machine Fault (Sending × List Act) (ℕ → Writev) where
  init s := s = (⟨c, [], 0, 0⟩, [])
  legal s _ := s.1.conn.isClosed = false
  exec s io := do
    let (t, _, acts) ← onWrite events srcDir sys db abi files io userCount s.1
    return (t, s.2 ++ acts)

/-- Where a session stands: it sends the first reply, or the second, or has counted more entries for
the second than there are, or is over. -/
inductive Phase (files : ℕ → Bytes) (c : HttpConn) (R₁ R₂ : Bytes) (shown : Bool) (s : Sending) :
    Prop where
  | first (hcarries : Carries files c.iov1 R₁ True s) (hpage : Page c s.conn) (hleft : s.sent ≠ R₁)
  | second (c₂ : HttpConn) (hcarries : Carries files c₂.iov1 (R₁ ++ R₂) True s)
      (hpage : Page c₂ s.conn) (hempty : c₂.iov1.len = 0) (hkeep : c₂.isKeepAlive = false)
      (hfd : c₂.fd = c.fd) (hfirst : R₁ <+: s.sent)
  | overrun (hshown : shown = true) (hcount : 2 < s.conn.iovCount) (hsent : s.sent = R₁)
  | closed (hclosed : s.conn.isClosed = true) (hsent : s.sent <+: R₁ ++ R₂)

/-- A connection with the reply to a message that asks to be kept, all in the write buffer. -/
structure Answered (files : ℕ → Bytes) (c : HttpConn) (R₁ : Bytes) : Prop where
  carries : Carries files c.iov1 R₁ True ⟨c, [], 0, 0⟩
  page : Page c c
  keep : c.isKeepAlive = true
  ok : c.readBuf.Ok
  crlf : c.readBuf.readable = [CR, LF]
  count : c.iovCount = 1
  empty : c.iov1.len = 0
  room : c.writeBuf.writePos < 2 ^ 63

/-- **The reply that nobody asked for**, once the first is sent: to the empty path, and not kept
alive.  If it shows a page of the site, more entries are counted than there are. -/
theorem Answered.unrequested (h : Answered files c R₁) (hhosts : Hosts files srcDir sys site)
    (hcarries : Carries files c.iov1 R₁ True s) (hpage : Page c s.conn) (hdone : s.sent = R₁)
    (hsize : (site.reply [] false).frame.print.length < 2 ^ 31) :
    ∃ c₂, onProcess events srcDir sys db s.conn
        = .ok (c₂, modFd c.fd (events.conn ||| EPOLLOUT)) ∧
      Phase files c R₁ (site.reply [] false).frame.print (site.reply [] false).shown.isSome
        { s with conn := c₂ } ∧
      c₂.isClosed = s.conn.isClosed := by
  have hbuf : s.conn.readBuf = c.readBuf := by rw [hpage.same]
  have hparse : blank.parse db s.conn.readBuf = .ok (false, blank, s.conn.readBuf) :=
    parse_blankLine (r := blank) (s := []) (hbuf ▸ h.ok) (by rw [hbuf, h.crlf])
  have hpos : 0 < s.conn.readBuf.getReadableBytes := by
    rw [hbuf, h.ok.getReadableBytes_eq, h.crlf]
    decide
  obtain ⟨c₂, hproc, hqueues, hrequest, -, hfd, hclosed, -, -⟩ := process_queues hhosts
    (hpage.drained h.empty (hcarries.left_eq_zero hdone)) hparse hpos rfl
    (by rw [hpage.room]; exact h.room) hsize
  have hfd' : c₂.fd = c.fd := hfd.trans hpage.fd
  have hcount : c₂.iovCount = 1 + if (site.reply [] false).shown.isSome then 2 else 1 := by
    rw [hqueues.count, hpage.same]
    exact congrArg (· + _) h.count
  refine ⟨c₂, ?_, ?_, hclosed⟩
  · rw [onProcess, hproc, ok_bind, ← hfd']
    rfl
  · cases hshown : (site.reply [] false).shown with
    | some content =>
      rw [hshown] at hcount
      have hthree : c₂.iovCount = 3 := hcount
      exact .overrun rfl (by rw [hthree]; decide) hdone
    | none =>
      rw [hshown] at hcount
      have htwo : c₂.iovCount = 2 := hcount
      refine .second c₂ ((hqueues.carries htwo.le).behind hdone)
        (.refl hqueues.ok hqueues.backed) (hqueues.stale hshown) ?_ hfd' (by rw [hdone])
      rw [HttpConn.isKeepAlive, hrequest]
      rfl

/-- What is left of a reply is sent by a call of `write`, or a part of it. -/
theorem write_sends (abi : Abi Members) (hcarries : Carries files v₁ R True s)
    (hpage : Page c s.conn) (hempty : c.iov1.len = 0) (hsize : R.length < 2 ^ 31) (isET : Bool)
    (io : ℕ → Writev) :
    ∃ len t, HttpConn.write abi files isET io { s with saveErrno := 0 } = .ok (len, t) ∧
      Carries files v₁ R True t ∧ Page c t.conn ∧ (t.conn.getBytesToWrite = 0 ↔ t.sent = R) ∧
      s.sent.length ≤ t.sent.length := by
  have hcarries₀ : Carries files v₁ R True { s with saveErrno := 0 } :=
    ⟨hcarries.lists, hcarries.whole, hcarries.backed⟩
  obtain ⟨len, t, hw, ⟨hcarries', hpage'⟩, hle⟩ :=
    hcarries₀.run_sends (kept_page abi hempty) hpage isET io (Nat.lt_succ_self _)
  exact ⟨len, t, hw, hcarries', hpage', hcarries'.getBytesToWrite_eq_zero_iff hsize, hle⟩

theorem onWrite_eq (hw : HttpConn.write abi files events.isET io { s with saveErrno := 0 }
    = .ok (len, t)) : onWrite events srcDir sys db abi files io userCount s
      = afterWrite events srcDir sys db userCount len t := by
  rw [onWrite, hw, ok_bind]

/-- The call that sends the last of the first reply. -/
theorem Answered.first_done (h : Answered files c R₁) (hhosts : Hosts files srcDir sys site)
    (hcarries : Carries files c.iov1 R₁ True t) (hpage : Page c t.conn) (hsent : t.sent = R₁)
    (hsize : R₁.length < 2 ^ 31) (hsize₂ : (site.reply [] false).frame.print.length < 2 ^ 31)
    (userCount len : ℤ) :
    ∃ c₂, afterWrite events srcDir sys db userCount len t
        = .ok ({ t with conn := c₂ }, userCount, modFd c.fd (events.conn ||| EPOLLOUT)) ∧
      Phase files c R₁ (site.reply [] false).frame.print (site.reply [] false).shown.isSome
        { t with conn := c₂ } ∧
      c₂.isClosed = t.conn.isClosed := by
  obtain ⟨c₂, hproc, hphase, hclosed⟩ := @Answered.unrequested events srcDir sys db files c t site
    R₁ h hhosts hcarries hpage hsent hsize₂
  have hkeep : t.conn.isKeepAlive = true := hpage.isKeepAlive.trans h.keep
  refine ⟨c₂, ?_, hphase, hclosed⟩
  rw [afterWrite_sent ((hcarries.getBytesToWrite_eq_zero_iff hsize).mpr hsent), if_pos hkeep, hproc,
    ok_bind]
  rfl

/-- The call that sends the last of a reply that is not kept alive. -/
theorem second_done (hcarries : Carries files v₁ R True t) (hsize : R.length < 2 ^ 31)
    (hsent : t.sent = R) (hkeep : t.conn.isKeepAlive = false) (hopen : t.conn.isClosed = false)
    (srcDir : Bytes) (sys : Sys) (db : Mysql) (userCount len : ℤ) :
    ∃ c₂ left acts, afterWrite events srcDir sys db userCount len t
        = .ok ({ t with conn := c₂ }, left, acts) ∧ c₂.isClosed = true ∧
      ∀ act ∈ acts, Mute events t.conn.fd act := by
  obtain ⟨hclosed, hmute⟩ := @closeConn_open events t.conn userCount hopen
  refine ⟨(closeConn userCount t.conn).1, (closeConn userCount t.conn).2.1,
    (closeConn userCount t.conn).2.2, ?_, hclosed, hmute⟩
  rw [afterWrite_sent ((hcarries.getBytesToWrite_eq_zero_iff hsize).mpr hsent),
    if_neg (by rw [hkeep]; decide)]
  rfl

/-- **A call of `_onWrite` in a session** leads on to its next stand, and arms nothing for reading,
unless there are more entries than `_iov` has. -/
theorem Answered.step (h : Answered files c R₁) (hhosts : Hosts files srcDir sys site)
    (hR₂ : (site.reply [] false).frame.print = R₂) (hsize : R₁.length + R₂.length < 2 ^ 31)
    (hs : Phase files c R₁ R₂ (site.reply [] false).shown.isSome s)
    (hopen : s.conn.isClosed = false) (io : ℕ → Writev) :
    (∃ t left acts, onWrite events srcDir sys db abi files io userCount s = .ok (t, left, acts) ∧
      Phase files c R₁ R₂ (site.reply [] false).shown.isSome t ∧
      ∀ act ∈ acts, Mute events c.fd act) ∨
    (site.reply [] false).shown.isSome = true ∧ s.sent = R₁ ∧
      onWrite events srcDir sys db abi files io userCount s = .error .outOfBounds := by
  subst hR₂
  cases hs with
  | first hcarries hpage hleft =>
    obtain ⟨len, t, hw, hcarries', hpage', hdone, -⟩ :=
      write_sends abi hcarries hpage h.empty (by omega) events.isET io
    have hfd : t.conn.fd = c.fd := hpage'.fd
    have hopen' : t.conn.isClosed = false :=
      hpage'.isClosed.trans (hpage.isClosed.symm.trans hopen)
    rw [onWrite_eq hw]
    by_cases hsent : t.sent = R₁
    · obtain ⟨c₂, hafter, hphase, -⟩ :=
        h.first_done hhosts hcarries' hpage' hsent (by omega) (by omega) userCount len
      exact .inl ⟨_, _, _, hafter, hphase, mute_modFd _ _⟩
    · obtain ⟨t', left, acts, hafter, hnext, hmute⟩ := @afterWrite_left events t srcDir sys db
        userCount len (fun hzero => hsent (hdone.mp hzero)) hopen'
      refine .inl ⟨t', left, acts, hafter, ?_, hfd ▸ hmute⟩
      obtain rfl | ⟨hclosed, hsame⟩ := hnext
      · exact .first hcarries' hpage' hsent
      · refine .closed hclosed ?_
        rw [hsame, ← hcarries'.whole, List.append_assoc]
        exact List.prefix_append _ _
  | second c₂ hcarries hpage hempty hkeep hfd hfirst =>
    have hsize' : (R₁ ++ (site.reply [] false).frame.print).length < 2 ^ 31 := by
      rwa [List.length_append]
    obtain ⟨len, t, hw, hcarries', hpage', hdone, hle⟩ :=
      write_sends abi hcarries hpage hempty hsize' events.isET io
    have hfd' : t.conn.fd = c.fd := hpage'.fd.trans hfd
    have hopen' : t.conn.isClosed = false :=
      hpage'.isClosed.trans (hpage.isClosed.symm.trans hopen)
    have hprefix : t.sent <+: R₁ ++ (site.reply [] false).frame.print := ⟨_, hcarries'.whole⟩
    rw [onWrite_eq hw]
    by_cases hsent : t.sent = R₁ ++ (site.reply [] false).frame.print
    · have hkeep' : t.conn.isKeepAlive = false := hpage'.isKeepAlive.trans hkeep
      obtain ⟨c₃, left, acts, hafter, hclosed, hmute⟩ :=
        second_done hcarries' hsize' hsent hkeep' hopen' srcDir sys db userCount len
      exact .inl ⟨_, left, acts, hafter, .closed hclosed hprefix, hfd' ▸ hmute⟩
    · obtain ⟨t', left, acts, hafter, hnext, hmute⟩ := @afterWrite_left events t srcDir sys db
        userCount len (fun hzero => hsent (hdone.mp hzero)) hopen'
      refine .inl ⟨t', left, acts, hafter, ?_, hfd' ▸ hmute⟩
      obtain rfl | ⟨hclosed, hsame⟩ := hnext
      · exact .second c₂ hcarries' hpage' hempty hkeep hfd
          (List.prefix_of_prefix_length_le (List.prefix_append _ _) hprefix
            (hfirst.length_le.trans hle))
      · exact .closed hclosed (hsame ▸ hprefix)
  | overrun hshown hcount hsent =>
    refine .inr ⟨hshown, hsent, ?_⟩
    have hwritev : writePass abi files events.isET io { s with saveErrno := 0 }
        = .error .outOfBounds := by
      rw [writePass, writev, if_neg fun hle => absurd hle.1 (not_le.mpr hcount), error_bind]
    rw [onWrite, HttpConn.write, Loop.run_error hwritev, error_bind]
  | closed hclosed hsent =>
    rw [hclosed] at hopen
    cases hopen

/-- What a session is about to do. -/
theorem session_exec (events : Events) (srcDir : Bytes) (sys : Sys) (db : Mysql) (abi : Abi Members)
    (files : ℕ → Bytes) (userCount : ℤ) (c : HttpConn) (s : Sending × List Act) (io : ℕ → Writev) :
    (session events srcDir sys db abi files userCount c).exec s io
      = (onWrite events srcDir sys db abi files io userCount s.1).map
        fun r => (r.1, s.2 ++ r.2.2) := by
  show (onWrite events srcDir sys db abi files io userCount s.1 >>= _) = _
  cases onWrite events srcDir sys db abi files io userCount s.1 <;> rfl

/-- **Every state of a session is one of its stands**, and nothing has been armed for reading. -/
theorem Answered.reach (h : Answered files c R₁) (hhosts : Hosts files srcDir sys site)
    (hR₂ : (site.reply [] false).frame.print = R₂) (hsize : R₁.length + R₂.length < 2 ^ 31)
    (hne : R₁ ≠ []) {s : Sending × List Act}
    (hs : (session events srcDir sys db abi files userCount c).Reach s) :
    Phase files c R₁ R₂ (site.reply [] false).shown.isSome s.1 ∧
      ∀ act ∈ s.2, Mute events c.fd act := by
  refine hs.invariant (I := fun s => Phase files c R₁ R₂ (site.reply [] false).shown.isSome s.1 ∧
    ∀ act ∈ s.2, Mute events c.fd act) (fun s hinit => ?_) fun s io s' hs hlegal he => ?_
  · obtain rfl : s = (⟨c, [], 0, 0⟩, []) := hinit
    exact ⟨.first h.carries h.page hne.symm, fun act hact => by cases hact⟩
  · rw [session_exec] at he
    obtain ⟨t, left, acts, hcall, hphase, hmute⟩ | ⟨-, -, hfault⟩ :=
      @Answered.step events srcDir sys db abi files userCount c s.1 site R₁ R₂ h hhosts hR₂ hsize
        hs.1 hlegal io
    · rw [hcall] at he
      obtain rfl := Except.ok.inj he
      exact ⟨hphase, fun act hact => (List.mem_append.mp hact).elim (hs.2 act) (hmute act)⟩
    · rw [hfault] at he
      cases he

end Server

end WebServer
