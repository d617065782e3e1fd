import WebServer.Server.Dispatch

/-!
# Server/Steps — all that a step of the server can do

`Does` lists what a legal step can do, and what a step leaves is read off it everywhere else.  The
calls that a task makes on the epoll instance are those that `_onWrite` makes of one connection
(`afterWrite_acts`).
-/

namespace WebServer

namespace Server

open Epoller

namespace Dispatch

variable {ι : Type} {s s' : State ι} {fd : ℤ} {i : ι} {task : Task} {pc : Pc}

/-! ## The events of a connection -/

theorem and_or_distrib (a b c : UInt32) : a &&& (b ||| c) = a &&& b ||| a &&& c := by
  apply UInt32.toBitVec_inj.mp
  rw [UInt32.toBitVec_and, UInt32.toBitVec_or, BitVec.and_or_distrib_left]
  rfl

/-- A mask with `_conn_event` has `EPOLLONESHOT`. -/
theorem connEvent_oneshot (cfg : Config) (events : UInt32) :
    (cfg.connEvent ||| events) &&& EPOLLONESHOT ≠ 0 := by
  have hconn : EPOLLONESHOT &&& cfg.connEvent ≠ 0 := by
    rw [Config.connEvent, initEventMode]
    split_ifs <;> decide
  rw [UInt32.and_comm, and_or_distrib, Ne, UInt32.or_eq_zero_iff]
  exact fun h => hconn h.1

/-- The calls of a task that are left, at most. -/
def Pc.left : Pc → ℕ
  | .io => 3
  | .process => 2
  | .rearm _ | .close => 1

theorem Pc.left_pos : 0 < pc.left := by
  cases pc with
  | io | process | rearm | close => exact Nat.succ_pos _

/-- **Each call on the `HttpConn` brings the end of the task closer.** -/
theorem next_left (connEvent : UInt32) (out : Outcome) (kind : Kind) (hpc : 1 < pc.left) :
    (pc.next connEvent out kind).left < pc.left := by
  cases pc with
  | io =>
    cases kind
    · simp only [Pc.next, afterRead]
      split_ifs <;> simp [Pc.left]
    · simp only [Pc.next, afterWrite]
      split_ifs <;> simp [Pc.left]
  | process =>
    simp only [Pc.next, afterProcess]
    split_ifs <;> simp [Pc.left]
  | rearm | close => exact absurd hpc (lt_irrefl 1)

/-- A task re-arms its descriptor for one event. -/
theorem next_oneshot {cfg : Config} {out : Outcome} {kind : Kind} {mask : UInt32}
    (hpc : 1 < pc.left) (h : pc.next cfg.connEvent out kind = .rearm mask) :
    mask &&& EPOLLONESHOT ≠ 0 := by
  cases pc with
  | io =>
    cases kind
    · simp only [Pc.next, afterRead] at h
      split_ifs at h
    · simp only [Pc.next, afterWrite] at h
      split_ifs at h
      exact Pc.rearm.inj h ▸ connEvent_oneshot cfg _
  | process =>
    simp only [Pc.next, afterProcess] at h
    split_ifs at h
    · exact Pc.rearm.inj h ▸ connEvent_oneshot cfg _
    · exact Pc.rearm.inj h ▸ connEvent_oneshot cfg _
  | rearm | close => exact absurd hpc (lt_irrefl 1)

/-- **`start` expects every event that can be reported.** -/
theorem handled {events mask : UInt32} (hmask : events &&& reportable mask = events)
    (hclose : events &&& (EPOLLRDHUP ||| EPOLLHUP ||| EPOLLERR) = 0)
    (hin : events &&& EPOLLIN = 0) (hout : events &&& EPOLLOUT = 0) : events = 0 := by
  simp only [reportable, and_or_distrib, UInt32.or_eq_zero_iff] at hmask hclose
  obtain ⟨⟨hrdhup, hhup⟩, herr⟩ := hclose
  have hand : ∀ k, events &&& k = 0 → events &&& (mask &&& k) = 0 := by
    intro k hk
    rw [← UInt32.and_assoc, UInt32.and_comm events mask, UInt32.and_assoc, hk, UInt32.and_zero]
  rw [← hmask, hand _ hin, hand _ hout, hand _ hrdhup, hhup, herr]
  rfl

/-! ## The steps -/

/-- The kernel has reported an event on the descriptor. -/
def State.report (s : State ι) (fd : ℤ) : State ι :=
  { s with interest := Function.update s.interest fd (s.interest fd).report }

variable [DecidableEq ι]

/-- **What a legal step can do.** -/
inductive Does (cfg : Config) (s : State ι) : Op ι → State ι → Prop
  | refused {fd : ℤ} (hfull : MAX_FD ≤ s.userCount) : Does cfg s (.accept fd) s
  | accepted {fd : ℤ} (hpos : 0 < fd) (hclosed : s.isOpen fd = false)
      (hroom : s.userCount < MAX_FD) : Does cfg s (.accept fd)
        { s with
          users := Function.update s.users fd (some ⟨false, s.clients⟩)
          userCount := s.userCount + 1
          clients := s.clients + 1
          deadline :=
            if 0 < cfg.timeoutMs then
              Function.update s.deadline fd (some (Timer.deadline s.now cfg.timeoutMs))
            else s.deadline
          interest := Function.update s.interest fd (.armed (EPOLLIN ||| cfg.connEvent)) }
  | hungUp {fd : ℤ} {events : UInt32} {extend : ℕ} {slot : Slot} {mask : UInt32}
      (hslot : s.users fd = some slot) (harmed : s.interest fd = .armed mask) :
      Does cfg s (.deliver fd events extend) ((s.report fd).closeConn fd)
  | dealt {fd : ℤ} {events : UInt32} {extend : ℕ} {slot : Slot} {mask : UInt32}
      (hslot : s.users fd = some slot) (harmed : s.interest fd = .armed mask) (kind : Kind) :
      Does cfg s (.deliver fd events extend)
        (((s.report fd).extendTime fd extend).addTask kind fd slot)
  | passed {elapsed : ℕ} : Does cfg s (.tick elapsed) { s with now := s.now + elapsed }
  | expired {fd : ℤ} (hon : 0 < cfg.timeoutMs) : Does cfg s (.expire fd)
      { s.closeConn fd with deadline := Function.update s.deadline fd none }
  | taken {i : ι} {task : Task} {rest : List Task} (hq : s.queue = task :: rest)
      (hi : s.worker i = none) :
      Does cfg s (.take i) { s.goto i (some (task, .io)) with queue := rest }
  | touched {i : ι} {out : Outcome} {task : Task} {pc : Pc} (hi : s.worker i = some (task, pc))
      (hpc : 1 < pc.left) : Does cfg s (.work i out)
        ((s.record task .touch).goto i (some (task, pc.next cfg.connEvent out task.kind)))
  | rearmed {i : ι} {out : Outcome} {task : Task} {mask : UInt32}
      (hi : s.worker i = some (task, .rearm mask)) : Does cfg s (.work i out)
        { (s.record task .modFd).goto i none with
          interest := perform s.interest (modFd task.fd mask) }
  | closed {i : ι} {out : Outcome} {task : Task} (hi : s.worker i = some (task, .close)) :
      Does cfg s (.work i out) (((s.record task .closeConn).goto i none).closeConn task.fd)

/-- **A legal step does one of these.** -/
theorem exec_does {cfg : Config} {o : Op ι} (hl : Legal cfg s o) (he : exec cfg s o = .ok s') :
    Does cfg s o s' := by
  cases o with
  | accept fd =>
    obtain ⟨hpos, -, hclosed⟩ := hl
    change s.accept cfg fd = .ok s' at he
    rw [State.accept, if_neg hpos.le.not_gt] at he
    split at he
    next hfull =>
      cases he
      exact .refused hfull
    next hroom =>
      rw [assert_true hpos, ok_bind] at he
      cases he
      exact .accepted hpos hclosed (not_le.mp hroom)
  | deliver fd events extend =>
    obtain ⟨hevents, mask, harmed, hmask⟩ := hl
    change s.deliver fd events extend = .ok s' at he
    rw [State.deliver] at he
    split at he
    · cases he
    next slot hslot =>
      split at he
      · cases he
        exact .hungUp hslot harmed
      next hclose =>
        split at he
        · cases he
          exact .dealt hslot harmed .onRead
        next hin =>
          split at he
          · cases he
            exact .dealt hslot harmed .onWrite
          next hout =>
            exact absurd (handled hmask (not_not.mp hclose) (not_not.mp hin) (not_not.mp hout))
              hevents
  | tick elapsed =>
    cases he
    exact .passed
  | expire fd =>
    cases he
    exact .expired hl.1
  | take i =>
    obtain ⟨hi, hne⟩ := hl
    obtain ⟨task, rest, hq⟩ := List.exists_cons_of_ne_nil hne
    rw [exec, hq] at he
    cases he
    exact .taken hq hi
  | work i out =>
    cases he
    rcases hi : s.worker i with _ | ⟨task, pc⟩
    · exact absurd hi hl
    · rw [State.work, hi]
      cases pc with
      | io => exact .touched hi (show 1 < Pc.io.left by decide)
      | process => exact .touched hi (show 1 < Pc.process.left by decide)
      | rearm mask => exact .rearmed hi
      | close => exact .closed hi

/-! ## The course of `_onWrite` -/

/-- The calls that end a task. -/
def Pc.acts (fd : ℤ) (isClosed : Bool) : Pc → List Act
  | .io | .process => []
  | .rearm events => modFd fd events
  | .close => delFd fd ++ if isClosed then [] else [.close fd]

section Acts

variable {events : Events} {srcDir : Bytes} {sys : Sys} {db : Mysql} {out : Outcome}
  {acts : List Act}

/-- `process` returns what the outcome says of it. -/
def Outcome.Processes (out : Outcome) (srcDir : Bytes) (sys : Sys) (db : Mysql) (c : HttpConn) :
    Prop :=
  ∀ processed c', c.process srcDir sys db = .ok (processed, c') → processed = out.processed

/-- The end of a task that has read or written. -/
def Pc.ending (connEvent : UInt32) (out : Outcome) : Pc → Pc
  | .process => afterProcess connEvent out
  | pc => pc

theorem closeConn_acts (userCount : ℤ) (c : HttpConn) :
    (Server.closeConn userCount c).2.2 = Pc.close.acts c.fd c.isClosed ∧
      (Server.closeConn userCount c).1.fd = c.fd := by
  rw [Server.closeConn, HttpConn.closeConn]
  cases hc : c.isClosed
  · simp [Pc.acts]
  · simp [Pc.acts]

theorem onProcess_acts {c c' : HttpConn} (hout : out.Processes srcDir sys db c)
    (h : Server.onProcess events srcDir sys db c = .ok (c', acts)) (isClosed : Bool) :
    acts = (afterProcess events.conn out).acts c'.fd isClosed := by
  obtain ⟨⟨processed, c₁⟩, hproc, h⟩ := bind_eq_ok.mp h
  rw [afterProcess, ← hout processed c₁ hproc]
  cases processed
  · obtain ⟨rfl, rfl⟩ := Prod.mk.inj (Except.ok.inj h)
    rfl
  · obtain ⟨rfl, rfl⟩ := Prod.mk.inj (Except.ok.inj h)
    rfl

/-- **`_onWrite` makes the calls of its task.** -/
theorem afterWrite_acts {userCount userCount' len : ℤ} {s s' : HttpConn.Sending}
    (hret : out.ret = Word.int32 len) (herrno : out.errno = s.saveErrno)
    (hbytes : out.bytesToWrite = s.conn.getBytesToWrite)
    (hkeep : out.isKeepAlive = s.conn.isKeepAlive) (hout : out.Processes srcDir sys db s.conn)
    (h : Server.afterWrite events srcDir sys db userCount len s = .ok (s', userCount', acts)) :
    acts = ((afterWrite events.conn out).ending events.conn out).acts
      s'.conn.fd s.conn.isClosed := by
  obtain ⟨hacts, hfd⟩ := closeConn_acts userCount s.conn
  rw [Server.afterWrite] at h
  split at h
  next conn left closing hc =>
    rw [hc] at hacts hfd
    have hclose : (.ok ({ s with conn }, left, closing) : Exec (HttpConn.Sending × ℤ × List Act))
        = .ok (s', userCount', acts) → acts = Pc.close.acts s'.conn.fd s.conn.isClosed := by
      intro h
      obtain ⟨rfl, -, rfl⟩ : { s with conn } = s' ∧ left = userCount' ∧ closing = acts := by
        simpa using h
      exact hfd ▸ hacts
    rw [afterWrite, hret, herrno, hbytes, hkeep]
    split at h
    next hzero =>
      rw [if_pos hzero]
      split at h
      next halive =>
        obtain ⟨⟨conn', acts'⟩, hproc, h⟩ := bind_eq_ok.mp h
        obtain ⟨rfl, -, rfl⟩ : { s with conn := conn' } = s' ∧ userCount = userCount' ∧
            acts' = acts := by simpa using h
        rw [if_pos halive]
        exact onProcess_acts hout hproc s.conn.isClosed
      next halive =>
        rw [if_neg halive]
        exact hclose h
    next hzero =>
      rw [if_neg hzero]
      split at h
      next hneg =>
        rw [if_pos hneg]
        split at h
        next hagain =>
          obtain ⟨rfl, -, rfl⟩ : s = s' ∧ userCount = userCount' ∧ _ = acts := by simpa using h
          rw [if_pos hagain]
          rfl
        next hagain =>
          rw [if_neg hagain]
          exact hclose h
      next hneg =>
        rw [if_neg hneg]
        exact hclose h

end Acts

/-- **A step of a worker makes the calls of its task.** -/
theorem work_interest {cfg : Config} {out : Outcome} {slot : Slot}
    (hi : s.worker i = some (task, pc)) (hslot : s.users task.fd = some slot) :
    (s.work cfg i out).interest = perform s.interest (pc.acts task.fd slot.isClosed) := by
  rw [State.work, hi]
  cases pc with
  | io | process | rearm => rfl
  | close =>
    show (((s.record task .closeConn).goto i none).closeConn task.fd).interest = _
    rw [State.closeConn, show ((s.record task .closeConn).goto i none).users task.fd = some slot
      from hslot]
    rfl

end Dispatch

end Server

end WebServer
