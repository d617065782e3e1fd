import WebServer.Http.Process
import WebServer.Server.Worker

/-!
# Server/Rearm — when `_onWrite` keeps a connection that has more to write

A socket that takes bytes or is busy (`Busy`) settles how many bytes are `left` after each of its
answers.  `Tracks` says that a pass of `write` follows that count.  A call ends by re-arming the
descriptor exactly if `write` ended in `EAGAIN` with a count that is not 0 as an `int`
(`afterWrite_rearm_iff`), and so all calls do exactly if the answers meet `Rearms`.
-/

namespace WebServer

namespace Server

open Epoller HttpConn

variable {events : Events} {srcDir : Bytes} {sys : Sys} {db : Mysql} {abi : Abi Members}
  {files : ℕ → Bytes} {io : ℕ → Writev} {userCount fd : ℤ} {v₁ : Iovec} {R : Bytes} {s s' : Sending}

/-! ## The answers of the socket -/

/-- The socket takes bytes, or it is busy. -/
def Busy (io : ℕ → Writev) : Prop := ∀ k, 0 < (io k).ret ∨ io k = ⟨-1, EAGAIN⟩

/-- How many of `total` bytes are left after `k` answers. -/
def left (io : ℕ → Writev) (total : ℕ) : ℕ → ℕ
  | 0 => total
  | k + 1 => left io total k - (io k).ret.toNat

/-- While bytes are left: no `EAGAIN` comes when their number is 0 as an `int`; and in LT mode, a
`writev` that takes some but not all leaves more than 10240, as an `int`. -/
def Rearms (isET : Bool) (io : ℕ → Writev) (total : ℕ) : Prop :=
  ∀ k, left io total k ≠ 0 →
    if (io k).ret ≤ 0 then Word.int32 (left io total k) ≠ 0
    else isET = true ∨ left io total (k + 1) = 0 ∨ 10240 < Word.int32 (left io total (k + 1))

theorem left_succ_le (io : ℕ → Writev) (total k : ℕ) : left io total (k + 1) ≤ left io total k :=
  Nat.sub_le _ _

/-! ## The passes of `write` follow the count -/

/-- The response `R` is on its way on the descriptor `fd`, and what the gather list describes is
what is left after the answers so far. -/
structure Tracks (files : ℕ → Bytes) (v₁ : Iovec) (R : Bytes) (fd : ℤ) (io : ℕ → Writev)
    (s : Sending) : Prop where
  carries : Carries files v₁ R True s
  len_eq : s.conn.iov0.len + s.conn.iov1.len = left io R.length s.calls
  fd_eq : s.conn.fd = fd

namespace Tracks

theorem sent_lt_iff (h : Tracks files v₁ R fd io s) :
    s.sent.length < R.length ↔ left io R.length s.calls ≠ 0 := by
  have hlen := congrArg List.length h.carries.whole
  rw [List.length_append, h.carries.lists.length_rest, h.len_eq] at hlen
  omega

theorem getBytesToWrite_eq (h : Tracks files v₁ R fd io s) (hR : R.length < 2 ^ 64) :
    s.conn.getBytesToWrite = Word.int32 (left io R.length s.calls) := by
  have hlen := congrArg List.length h.carries.whole
  rw [List.length_append, h.carries.lists.length_rest] at hlen
  rw [getBytesToWrite, Word.add_of_lt (by omega), h.len_eq]

theorem saveErrno (h : Tracks files v₁ R fd io s) (errno : ℤ) :
    Tracks files v₁ R fd io { s with saveErrno := errno } :=
  ⟨⟨h.carries.lists, h.carries.whole, h.carries.backed⟩, h.len_eq, h.fd_eq⟩

/-- A pass that sends nothing. -/
theorem pass_stop (h : Tracks files v₁ R fd io s) (abi : Abi Members) (isET : Bool)
    (hstop : (io s.calls).ret ≤ 0 ∨ left io R.length s.calls = 0) :
    ∃ s', writePass abi files isET io s = .ok (.exit (min (io s.calls).ret 0, s')) ∧
      Tracks files v₁ R fd io s' ∧ s'.calls = s.calls + 1 ∧
      s'.saveErrno = (io s.calls).errno ∧
      left io R.length (s.calls + 1) = left io R.length s.calls := by
  have hleft : left io R.length (s.calls + 1) = left io R.length s.calls := by
    rw [left]
    omega
  refine ⟨_, h.carries.lists.writePass_stop (h.len_eq.symm ▸ hstop), ?_, rfl, rfl, hleft⟩
  exact ⟨⟨h.carries.lists, h.carries.whole, h.carries.backed⟩, h.len_eq.trans hleft.symm, h.fd_eq⟩

/-- A pass that sends something. -/
theorem pass_took (h : Tracks files v₁ R fd io s) (abi : Abi Members) (isET : Bool)
    (hR : R.length < 2 ^ 64) (hpos : 0 < (io s.calls).ret) (hleft : left io R.length s.calls ≠ 0) :
    ∃ (n : ℕ) (s' : Sending), Tracks files v₁ R fd io s' ∧ s'.calls = s.calls + 1 ∧
      s'.saveErrno = s.saveErrno ∧
      writePass abi files isET io s = .ok
        (if isET = true ∨ 10240 < Word.int32 (left io R.length (s.calls + 1)) then .next s'
          else .exit (n, s')) := by
  have hlen := h.len_eq
  obtain ⟨n, hn⟩ : ∃ n, min (io s.calls).ret.toNat (s.conn.iov0.len + s.conn.iov1.len) = n :=
    ⟨_, rfl⟩
  obtain ⟨c', he, hfd, hlen', hcarries⟩ :=
    (h.carries.took abi (n := n) (by omega) (by omega)).resolve_right fun hfail => hfail.2 trivial
  have htracks : Tracks files v₁ R fd io { s with
      conn := c', sent := s.sent ++ (s.conn.rest files).take n, calls := s.calls + 1 } := by
    refine ⟨hcarries, ?_, hfd.trans h.fd_eq⟩
    simp only [left]
    omega
  refine ⟨n, _, htracks, rfl, rfl, ?_⟩
  rw [h.carries.lists.writePass_took hn (by omega), he, ok_bind]
  simp only [htracks.getBytesToWrite_eq hR, pure_eq_ok]
  split <;> rfl

end Tracks

/-! ## One call -/

/-- **Under `Rearms`, a call of `write` that leaves something ends in `EAGAIN`.** -/
theorem Tracks.write (h : Tracks files v₁ R fd io s) (abi : Abi Members) {isET : Bool}
    (hR : R.length < 2 ^ 64) (hio : Busy io) (hrearms : Rearms isET io R.length) :
    ∃ len s', HttpConn.write abi files isET io s = .ok (len, s') ∧ Tracks files v₁ R fd io s' ∧
      (s'.sent.length < R.length →
        len = -1 ∧ s'.saveErrno = EAGAIN ∧ s'.conn.getBytesToWrite ≠ 0) := by
  refine Loop.run_total (I := Tracks files v₁ R fd io) (v := fun s => left io R.length s.calls)
    (Q := fun out => ∃ len s', out = .ok (len, s') ∧ Tracks files v₁ R fd io s' ∧
      (s'.sent.length < R.length →
        len = -1 ∧ s'.saveErrno = EAGAIN ∧ s'.conn.getBytesToWrite ≠ 0))
    (fun t ht => ?_) _ s h (h.len_eq ▸ Nat.lt_succ_self _)
  have hk := hrearms t.calls
  by_cases hleft : left io R.length t.calls = 0
  · obtain ⟨t', hpass, ht', hcalls, -, hkeep⟩ := ht.pass_stop abi isET (.inr hleft)
    rw [hpass]
    refine ⟨_, t', rfl, ht', fun hlt => ?_⟩
    rw [ht'.sent_lt_iff, hcalls, hkeep] at hlt
    exact absurd hleft hlt
  · obtain hpos | hagain := hio t.calls
    · obtain ⟨n, t', ht', hcalls, -, hpass⟩ := ht.pass_took abi isET hR hpos hleft
      rw [if_neg (by omega)] at hk
      rw [hpass]
      split
      · refine ⟨ht', ?_⟩
        simp only [hcalls, left]
        omega
      · next hexit =>
        rw [not_or] at hexit
        refine ⟨n, t', rfl, ht', fun hlt => ?_⟩
        rw [ht'.sent_lt_iff, hcalls] at hlt
        obtain hET | hall | hmany := hk hleft
        · exact absurd hET hexit.1
        · exact absurd hall hlt
        · exact absurd hmany hexit.2
    · obtain ⟨t', hpass, ht', hcalls, herr, hkeep⟩ :=
        ht.pass_stop abi isET (.inl (by rw [hagain]; decide))
      rw [if_pos (by rw [hagain]; decide)] at hk
      rw [hpass]
      refine ⟨_, t', rfl, ht', fun _ => ⟨by rw [hagain]; rfl, by rw [herr, hagain], ?_⟩⟩
      rw [ht'.getBytesToWrite_eq hR, hcalls, hkeep]
      exact hk hleft

theorem conn_in_ne_out (triggerMode : ℤ) :
    (initEventMode triggerMode).conn ||| EPOLLIN
      ≠ (initEventMode triggerMode).conn ||| EPOLLOUT := by
  unfold initEventMode
  dsimp only
  split_ifs <;> decide

/-- The next response is not a re-arming: it counts the gather list up, or waits for input. -/
theorem onProcess_ne_rearm {triggerMode : ℤ} (hevents : initEventMode triggerMode = events)
    {c : HttpConn} (hfd : 0 ≤ c.fd) :
    onProcess events srcDir sys db c ≠ .ok (c, [.epollMod c.fd (events.conn ||| EPOLLOUT)]) := by
  intro h
  obtain ⟨⟨more, c'⟩, hproc, h⟩ := bind_eq_ok.mp h
  cases more with
  | true =>
    obtain ⟨rfl, -⟩ := Prod.mk.inj (Except.ok.inj h)
    exact absurd (iovCount_lt_of_process hproc) (lt_irrefl _)
  | false =>
    obtain ⟨rfl, hacts⟩ := Prod.mk.inj (Except.ok.inj h)
    rw [modFd, if_neg (by omega), ← hevents] at hacts
    exact conn_in_ne_out triggerMode (Act.epollMod.inj (List.head_eq_of_cons_eq hacts)).2

theorem closeConn_ne_rearm (userCount : ℤ) {c : HttpConn} (hfd : 0 ≤ c.fd) (e : UInt32) :
    (closeConn userCount c).2.2 ≠ [.epollMod c.fd e] := by
  rw [closeConn]
  simp only [delFd, if_neg (show ¬ c.fd < 0 by omega), List.cons_append]
  exact fun h => by cases List.head_eq_of_cons_eq h

/-- **When a call re-arms the descriptor and does nothing else**, by what `write` left. -/
theorem afterWrite_rearm_iff {triggerMode : ℤ} (hevents : initEventMode triggerMode = events)
    {len : ℤ} (hfd : 0 ≤ s.conn.fd) :
    afterWrite events srcDir sys db userCount len s
        = .ok (s, userCount, [.epollMod s.conn.fd (events.conn ||| EPOLLOUT)]) ↔
      s.conn.getBytesToWrite ≠ 0 ∧ Word.int32 len < 0 ∧ s.saveErrno = EAGAIN := by
  have hclose := closeConn_ne_rearm userCount hfd (events.conn ||| EPOLLOUT)
  rw [afterWrite]
  split
  next conn left acts hc =>
    rw [hc] at hclose
    have hno : (.ok ({ s with conn }, left, acts) : Exec (Sending × ℤ × List Act))
        ≠ .ok (s, userCount, [.epollMod s.conn.fd (events.conn ||| EPOLLOUT)]) :=
      fun h => hclose (congrArg (fun x => x.2.2) (Except.ok.inj h))
    split
    · next hbytes =>
      refine iff_of_false ?_ fun h => h.1 hbytes
      split
      · intro h
        obtain ⟨⟨conn, acts⟩, hproc, h⟩ := bind_eq_ok.mp h
        obtain ⟨hconn, -, rfl⟩ : { s with conn } = s ∧ userCount = userCount ∧ acts = _ := by
          simpa using h
        obtain rfl : conn = s.conn := congrArg Sending.conn hconn
        exact onProcess_ne_rearm hevents hfd hproc
      · exact hno
    · next hbytes =>
      split
      · next hret =>
        split
        · next herr => simp [modFd, if_neg (show ¬ s.conn.fd < 0 by omega), hbytes, hret, herr]
        · next herr => exact iff_of_false hno fun h => herr h.2.2
      · next hret => exact iff_of_false hno fun h => hret h.2.1

/-! ## The calls for one response -/

/-- A call of `_onWrite` in `s` ends with re-arming the descriptor for `EPOLLOUT`, and what `write`
left of the connection is `s'`. -/
def Rearmed (events : Events) (srcDir : Bytes) (sys : Sys) (db : Mysql) (abi : Abi Members)
    (files : ℕ → Bytes) (io : ℕ → Writev) (userCount : ℤ) (s s' : Sending) : Prop :=
  (∃ len, HttpConn.write abi files events.isET io { s with saveErrno := 0 } = .ok (len, s')) ∧
    onWrite events srcDir sys db abi files io userCount s
      = .ok (s', userCount, [.epollMod s'.conn.fd (events.conn ||| EPOLLOUT)])

/-- The states in which the calls start: the first in `s₀`, the next where a call re-armed the
descriptor. -/
def Called (events : Events) (srcDir : Bytes) (sys : Sys) (db : Mysql) (abi : Abi Members)
    (files : ℕ → Bytes) (io : ℕ → Writev) (userCount : ℤ) : Sending → Sending → Prop :=
  Relation.ReflTransGen (Rearmed events srcDir sys db abi files io userCount)

/-- `write` ends, and if that leaves bytes of the `total` to send, the call re-arms the
descriptor. -/
def KeepsWriting (events : Events) (srcDir : Bytes) (sys : Sys) (db : Mysql) (abi : Abi Members)
    (files : ℕ → Bytes) (io : ℕ → Writev) (userCount : ℤ) (total : ℕ) (s : Sending) : Prop :=
  ∃ len s', HttpConn.write abi files events.isET io { s with saveErrno := 0 } = .ok (len, s') ∧
    (s'.sent.length < total → Rearmed events srcDir sys db abi files io userCount s s')

theorem rearmed_iff {triggerMode : ℤ} (hevents : initEventMode triggerMode = events) {len : ℤ}
    (hw : HttpConn.write abi files events.isET io { s with saveErrno := 0 } = .ok (len, s'))
    (hfd : 0 ≤ s'.conn.fd) :
    Rearmed events srcDir sys db abi files io userCount s s' ↔
      s'.conn.getBytesToWrite ≠ 0 ∧ Word.int32 len < 0 ∧ s'.saveErrno = EAGAIN := by
  rw [Rearmed, and_iff_right ⟨len, hw⟩, onWrite, hw, ok_bind]
  exact afterWrite_rearm_iff hevents hfd

theorem Tracks.of_rearmed (h : Tracks files v₁ R fd io s) (hR : R.length < 2 ^ 64) (hio : Busy io)
    (hrearms : Rearms events.isET io R.length)
    (hre : Rearmed events srcDir sys db abi files io userCount s s') :
    Tracks files v₁ R fd io s' := by
  obtain ⟨len, hw⟩ := hre.1
  obtain ⟨len', s'', hw', h', -⟩ := (h.saveErrno 0).write abi hR hio hrearms
  rw [hw] at hw'
  obtain ⟨-, rfl⟩ := Prod.mk.inj (Except.ok.inj hw')
  exact h'

/-- **Answers that meet `Rearms` keep every call writing.** -/
theorem Tracks.keepsWriting (h : Tracks files v₁ R fd io s) (hfd : 0 ≤ fd) {triggerMode : ℤ}
    (hevents : initEventMode triggerMode = events) (hR : R.length < 2 ^ 64) (hio : Busy io)
    (hrearms : Rearms events.isET io R.length) :
    KeepsWriting events srcDir sys db abi files io userCount R.length s := by
  obtain ⟨len, s', hw, h', hend⟩ := (h.saveErrno 0).write abi hR hio hrearms
  refine ⟨len, s', hw, fun hlt => ?_⟩
  obtain ⟨rfl, herr, hbytes⟩ := hend hlt
  exact (rearmed_iff hevents hw (h'.fd_eq ▸ hfd)).mpr ⟨hbytes, by decide, herr⟩

/-- The loop of a call that starts in `s` is about to meet the answer `k`. -/
def Meets (abi : Abi Members) (isET : Bool) (files : ℕ → Bytes) (v₁ : Iovec) (R : Bytes) (fd : ℤ)
    (io : ℕ → Writev) (s : Sending) (k : ℕ) : Prop :=
  ∃ t, Loop.Heads (writePass abi files isET io) { s with saveErrno := 0 } t ∧
    Tracks files v₁ R fd io t ∧ t.calls = k ∧ t.saveErrno = 0

theorem Tracks.meets (h : Tracks files v₁ R fd io s) (abi : Abi Members) (isET : Bool) :
    Meets abi isET files v₁ R fd io s s.calls :=
  ⟨_, .refl, h.saveErrno 0, rfl, rfl⟩

/-- **A call that keeps writing met its answer well**, and it or the call after it meets the
next. -/
theorem Meets.next {k : ℕ} (h : Meets abi events.isET files v₁ R fd io s k) (hfd : 0 ≤ fd)
    {triggerMode : ℤ} (hevents : initEventMode triggerMode = events) (hR : R.length < 2 ^ 64)
    (hio : Busy io)
    (hgood : KeepsWriting events srcDir sys db abi files io userCount R.length s)
    (hleft : left io R.length k ≠ 0) :
    (if (io k).ret ≤ 0 then Word.int32 (left io R.length k) ≠ 0
      else events.isET = true ∨ left io R.length (k + 1) = 0 ∨
        10240 < Word.int32 (left io R.length (k + 1))) ∧
    (left io R.length (k + 1) ≠ 0 →
      ∃ s', Called events srcDir sys db abi files io userCount s s' ∧
        Meets abi events.isET files v₁ R fd io s' (k + 1)) := by
  obtain ⟨t, hhead, ht, rfl, herr⟩ := h
  obtain ⟨len, s', hw, hgood⟩ := hgood
  -- a pass that leaves the loop ends the call in its state
  have hends : ∀ {r : ℤ} {t' : Sending},
      writePass abi files events.isET io t = .ok (.exit (r, t')) → r = len ∧ t' = s' := by
    intro r t' hexit
    have hrun : HttpConn.write abi files events.isET io { s with saveErrno := 0 } = .ok (r, t') :=
      hhead.run_exit hexit fun hout => by cases hw.symm.trans hout
    exact Prod.mk.inj (Except.ok.inj (hrun.symm.trans hw))
  obtain hpos | hagain := hio t.calls
  · obtain ⟨n, t', ht', hcalls, herr', hpass⟩ := ht.pass_took abi events.isET hR hpos hleft
    have hround : left io R.length (t.calls + 1) ≠ 0 →
        events.isET = true ∨ 10240 < Word.int32 (left io R.length (t.calls + 1)) := by
      intro hmore
      by_contra hexit
      obtain ⟨rfl, rfl⟩ := hends (hpass.trans (by rw [if_neg hexit]))
      rw [← hcalls, ← ht'.sent_lt_iff] at hmore
      have hbad := (rearmed_iff hevents hw (ht'.fd_eq ▸ hfd)).mp (hgood hmore)
      rw [herr', herr] at hbad
      exact absurd hbad.2.2 (by decide)
    rw [if_neg (by omega)]
    refine ⟨?_, fun hmore => ⟨s, .refl, t', ?_, ht', hcalls, herr'.trans herr⟩⟩
    · obtain hall | hmore := eq_or_ne (left io R.length (t.calls + 1)) 0
      · exact .inr (.inl hall)
      · exact (hround hmore).imp_right .inr
    · exact hhead.tail (hpass.trans (by rw [if_pos (hround hmore)]))
  · obtain ⟨t', hpass, ht', hcalls, herr', hkeep⟩ :=
      ht.pass_stop abi events.isET (.inl (by rw [hagain]; decide))
    obtain ⟨rfl, rfl⟩ := hends hpass
    have hre := hgood (ht'.sent_lt_iff.mpr (by rwa [hcalls, hkeep]))
    rw [if_pos (by rw [hagain]; decide)]
    refine ⟨?_, fun _ => ⟨t', .single hre, hcalls ▸ ht'.meets abi events.isET⟩⟩
    rw [← hkeep, ← hcalls, ← ht'.getBytesToWrite_eq hR]
    exact ((rearmed_iff hevents hw (ht'.fd_eq ▸ hfd)).mp hre).1

theorem left_ne_zero_of_succ {total k : ℕ} (h : left io total (k + 1) ≠ 0) :
    left io total k ≠ 0 := by
  have := left_succ_le io total k
  omega

/-- **`_onWrite` re-arms the descriptor until every byte is sent exactly when the answers meet
`Rearms`**: in every mode, for every response `H ++ F`, and whatever the next `process` would do. -/
theorem onWrite_keepsWriting_iff (srcDir : Bytes) (sys : Sys) (db : Mysql) (abi : Abi Members)
    {files : ℕ → Bytes} {io : ℕ → Writev} (userCount triggerMode : ℤ) {H F : Bytes} {c : HttpConn}
    (hc : Describes files H F c) (hok : c.writeBuf.Ok) (hread : c.writeBuf.readable = H)
    (hfd : 0 < c.fd) (hlen : H.length + F.length < 2 ^ 64) (hio : Busy io) :
    (∀ s, Called (initEventMode triggerMode) srcDir sys db abi files io userCount ⟨c, [], 0, 0⟩ s →
      KeepsWriting (initEventMode triggerMode) srcDir sys db abi files io userCount
        (H.length + F.length) s) ↔
    Rearms (initEventMode triggerMode).isET io (H.length + F.length) := by
  have hR : (H ++ F).length < 2 ^ 64 := by rwa [List.length_append]
  have hfd : 0 ≤ c.fd := Int.le_of_lt hfd
  have hcarries := hc.carries (by omega)
  have hstart : Tracks files c.iov1 (H ++ F) c.fd io ⟨c, [], 0, 0⟩ := by
    refine ⟨⟨hcarries.lists, hcarries.whole, fun _ => hcarries.backed ⟨hok, hread⟩⟩, ?_, rfl⟩
    have hwhole := congrArg List.length hcarries.whole
    rw [List.length_append, hcarries.lists.length_rest] at hwhole
    simpa [left] using hwhole
  rw [← List.length_append]
  constructor
  · intro hgood
    have hmeets : ∀ k, left io (H ++ F).length k ≠ 0 → ∃ s,
        Called (initEventMode triggerMode) srcDir sys db abi files io userCount ⟨c, [], 0, 0⟩ s ∧
          Meets abi (initEventMode triggerMode).isET files c.iov1 (H ++ F) c.fd io s k := by
      intro k
      induction k with
      | zero => exact fun _ => ⟨_, .refl, hstart.meets abi _⟩
      | succ k ih =>
        intro hleft
        obtain ⟨s, hs, hm⟩ := ih (left_ne_zero_of_succ hleft)
        obtain ⟨s', hs', hm'⟩ :=
          (hm.next hfd rfl hR hio (hgood s hs) (left_ne_zero_of_succ hleft)).2 hleft
        exact ⟨s', hs.trans hs', hm'⟩
    intro k hleft
    obtain ⟨s, hs, hm⟩ := hmeets k hleft
    exact (hm.next hfd rfl hR hio (hgood s hs) hleft).1
  · intro hrearms s hs
    have htracks : Tracks files c.iov1 (H ++ F) c.fd io s := by
      induction hs with
      | refl => exact hstart
      | tail _ hre ih => exact ih.of_rearmed hR hio hrearms hre
    exact htracks.keepsWriting hfd rfl hR hio hrearms

/-- A response of a head `abc` and a page `de`, on the descriptor 5. -/
def openPage : HttpConn := { page with fd := 5, isClosed := false }

theorem describes_openPage : Describes (fun _ => str "de") (str "abc") (str "de") openPage :=
  ⟨by decide +kernel, by decide, by decide +kernel, by decide, by decide, by decide, by decide,
    by decide⟩

theorem onWrite_keepsWriting_page :
    (∀ s, Called (initEventMode 1) [] noFiles HttpRequest.noDb emptied (fun _ => str "de")
        (fun _ => ⟨4, 0⟩) 1 ⟨openPage, [], 0, 0⟩ s →
      KeepsWriting (initEventMode 1) [] noFiles HttpRequest.noDb emptied (fun _ => str "de")
        (fun _ => ⟨4, 0⟩) 1 (3 + 2) s) ↔
    Rearms (initEventMode 1).isET (fun _ => ⟨4, 0⟩) (3 + 2) :=
  onWrite_keepsWriting_iff [] noFiles HttpRequest.noDb emptied 1 1 describes_openPage
    ⟨by decide, by decide +kernel, by decide +kernel⟩ (by decide +kernel) (by decide) (by decide)
    fun _ => .inl (by decide)

/-- In LT mode a socket that takes four of the five bytes has the connection closed on it. -/
theorem onWrite_closes_page :
    ¬ ∀ s, Called (initEventMode 0) [] noFiles HttpRequest.noDb emptied (fun _ => str "de")
        (fun _ => ⟨4, 0⟩) 1 ⟨openPage, [], 0, 0⟩ s →
      KeepsWriting (initEventMode 0) [] noFiles HttpRequest.noDb emptied (fun _ => str "de")
        (fun _ => ⟨4, 0⟩) 1 (3 + 2) s := by
  intro h
  obtain ⟨len, s', hw, hre⟩ := h _ .refl
  have hsent : (openPage.rest fun _ => str "de").take 4 = str "abcd" := by decide +kernel
  have hshort : HttpConn.write emptied (fun _ => str "de") (initEventMode 0).isET (fun _ => ⟨4, 0⟩)
      ⟨openPage, [], 0, 0⟩ = .ok (4, { pageStraddled with
        conn := { pageStraddled.conn with readBuf := .new 0, fd := 5, isClosed := false } }) := by
    have honce := write_once emptied (fun _ => ⟨4, 0⟩)
      (describes_openPage.carries (by decide)).lists (n := 4) rfl (by decide) rfl (by decide)
    rw [hsent] at honce
    exact honce
  obtain ⟨-, rfl⟩ := Prod.mk.inj (Except.ok.inj (hw.symm.trans hshort))
  have hclosed : (onWrite (initEventMode 0) [] noFiles HttpRequest.noDb emptied (fun _ => str "de")
      (fun _ => ⟨4, 0⟩) 1 ⟨openPage, [], 0, 0⟩).map (fun x => x.2.2)
        = .ok [.epollDel 5, .close 5] := by
    unfold onWrite
    dsimp only
    rw [hshort, ok_bind, afterWrite]
    dsimp only
    rw [if_neg (by decide), if_neg (by decide)]
    rfl
  rw [(hre (by decide)).2] at hclosed
  cases Except.ok.inj hclosed

end Server

end WebServer
