import WebServer.Machinery.Refinement
import WebServer.Server.Owners

/-!
# Server/Batch — the loop of `start`, with a batch of events at a time

`epoll_wait` fills `_events`, and `start` handles one after the other, while the workers go on: a
descriptor may have changed by the time that its event is handled, and one event of the listening
socket may be several clients.  With idle timers off this makes no difference (`batch_exact`): a
connection that is in `_events` has no other owner, and whoever takes it for armed still sees a run
of `Server/Dispatch`.
-/

namespace WebServer

namespace Server

open Epoller

/-- The size of `_events`. -/
def MAX_EVENT : ℕ := 1024

namespace Batch

open Dispatch

variable {ι : Type}

/-- An event in `_events`.  How its descriptor stood and which client was in the slot when the
kernel reported it is not in the program. -/
structure Report where
  fd : ℤ
  events : UInt32
  stood : Interest
  client : Option ℕ
  deriving DecidableEq, Repr

structure State (ι : Type) where
  server : Dispatch.State ι
  /-- The events in `_events` that are still to be handled. -/
  batch : List Report
  /-- In `_dealListen`. -/
  listening : Bool

/-- `_listen_event`. -/
def listenEvent (cfg : Config) : UInt32 := (initEventMode cfg.triggerMode).listen

/-- What the kernel reports. -/
def report (s : Dispatch.State ι) (events : List (ℤ × UInt32)) : List Report :=
  events.map fun e => ⟨e.1, e.2, s.interest e.1, s.clientAt e.1⟩

/-- The reports on connections. -/
def conns (cfg : Config) (batch : List Report) : List Report := batch.filter (·.fd ≠ cfg.listenFd)

/-- Each of the descriptors is made to stand as `f` says. -/
def standing (f : Report → Interest) (batch : List Report) (interest : ℤ → Interest) :
    ℤ → Interest :=
  batch.foldr (fun r interest => Function.update interest r.fd (f r)) interest

/-- The kernel reports the batch. -/
def reported (s : Dispatch.State ι) (batch : List Report) : Dispatch.State ι :=
  { s with interest := standing (fun r => r.stood.report) batch s.interest }

/-- The batch has not been reported. -/
def restored (s : Dispatch.State ι) (batch : List Report) : Dispatch.State ι :=
  { s with interest := standing Report.stood batch s.interest }

/-- `start`, on an event of a connection. -/
def handle (s : Dispatch.State ι) (fd : ℤ) (events : UInt32) (extend : ℕ) :
    Exec (Dispatch.State ι) :=
  match s.users fd with
  | none => .error (.assertion "_users.find(fd) != _users.end()")
  | some slot =>
    if events &&& (EPOLLRDHUP ||| EPOLLHUP ||| EPOLLERR) ≠ 0 then .ok (s.closeConn fd)
    else if events &&& EPOLLIN ≠ 0 then .ok ((s.extendTime fd extend).addTask .onRead fd slot)
    else if events &&& EPOLLOUT ≠ 0 then .ok ((s.extendTime fd extend).addTask .onWrite fd slot)
    else .ok s

inductive Op (ι : Type) where
  /-- `epoll_wait` returns these events. -/
  | wait (events : List (ℤ × UInt32))
  /-- `start` turns to the next event. -/
  | handle (extend : ℕ)
  /-- A pass of `_dealListen`, with what `accept` returned. -/
  | accept (fd : ℤ)
  | tick (elapsed : ℕ)
  /-- `getNextTick` fires the timer on a slot. -/
  | expire (fd : ℤ)
  | take (i : ι)
  | work (i : ι) (o : Outcome)

/-- The loop is between two batches. -/
def State.Between (t : State ι) : Prop := t.batch = [] ∧ t.listening = false

/-- `epoll_wait` reports a descriptor once, and what was asked for on it; `accept` fails, or returns
a descriptor that is not open. -/
def Legal (cfg : Config) (t : State ι) : Op ι → Prop
  | .wait events => t.Between ∧ events.length ≤ MAX_EVENT ∧ (events.map Prod.fst).Nodup ∧
    ∀ e ∈ events, e.1 ≠ cfg.listenFd → Dispatch.Legal cfg t.server (.deliver e.1 e.2 0)
  | .handle _ => t.batch ≠ [] ∧ t.listening = false
  | .accept fd => t.listening = true ∧ (fd < 0 ∨ Dispatch.Legal cfg t.server (.accept fd))
  | .tick _ => True
  | .expire fd => t.Between ∧ Dispatch.Legal cfg t.server (.expire fd)
  | .take i => Dispatch.Legal cfg t.server (.take i)
  | .work i o => Dispatch.Legal cfg t.server (.work i o)

variable [DecidableEq ι]

def exec (cfg : Config) (t : State ι) : Op ι → Exec (State ι)
  | .wait events =>
    let batch := report t.server events
    .ok { t with batch, server := reported t.server (conns cfg batch) }
  | .handle extend =>
    match t.batch with
    | [] => .ok t
    | r :: rest =>
      if r.fd = cfg.listenFd then .ok { t with batch := rest, listening := true }
      else do
        let server ← handle t.server r.fd r.events extend
        return { t with server, batch := rest }
  | .accept fd => do
    let server ← t.server.accept cfg fd
    return { t with server, listening := decide (0 ≤ fd ∧ t.server.userCount < MAX_FD) &&
      (listenEvent cfg &&& EPOLLET != 0) }
  | .tick elapsed => do
    let server ← Dispatch.exec cfg t.server (.tick elapsed)
    return { t with server }
  | .expire fd => do
    let server ← Dispatch.exec cfg t.server (.expire fd)
    return { t with server }
  | .take i => do
    let server ← Dispatch.exec cfg t.server (.take i)
    return { t with server }
  | .work i o => do
    let server ← Dispatch.exec cfg t.server (.work i o)
    return { t with server }

/-- The loop of `start`, before its first pass. -/
def State.new : State ι := ⟨.new, [], false⟩

def machine (ι : Type) [DecidableEq ι] (cfg : Config) : Machine Fault (State ι) (Op ι) where
  init t := t = .new
  legal := Legal cfg
  exec := exec cfg

/-! ## Descriptors that nobody looks at -/

section Standing

variable {f : Report → Interest} {batch : List Report} {interest : ℤ → Interest} {fd : ℤ}
  {r : Report}

theorem standing_of_not_mem (h : fd ∉ batch.map Report.fd) :
    standing f batch interest fd = interest fd := by
  induction batch with
  | nil => rfl
  | cons r batch ih =>
    rw [List.map_cons, List.mem_cons, not_or] at h
    exact (Function.update_of_ne h.1 ..).trans (ih h.2)

theorem standing_of_mem (hnodup : (batch.map Report.fd).Nodup) (h : r ∈ batch) :
    standing f batch interest r.fd = f r := by
  induction batch with
  | nil => cases h
  | cons r' batch ih =>
    rw [List.map_cons, List.nodup_cons] at hnodup
    obtain rfl | h := List.mem_cons.mp h
    · exact Function.update_self ..
    · refine (Function.update_of_ne ?_ ..).trans (ih hnodup.2 h)
      rintro hfd
      exact hnodup.1 (hfd ▸ List.mem_map_of_mem h)

end Standing

/-- The descriptor is made to stand so. -/
def put (s : Dispatch.State ι) (fd : ℤ) (interest : Interest) : Dispatch.State ι :=
  { s with interest := Function.update s.interest fd interest }

variable {cfg : Config} {s s' : Dispatch.State ι} {fd fd' : ℤ} {x : Interest}

omit [DecidableEq ι] in
theorem perform_update {interest : ℤ → Interest} {acts : List Act}
    (h : ∀ act ∈ acts, act.fd = fd') (hne : fd ≠ fd') :
    perform (Function.update interest fd x) acts
      = Function.update (perform interest acts) fd x := by
  induction acts generalizing interest with
  | nil => rfl
  | cons act acts ih =>
    obtain ⟨hact, hacts⟩ := List.forall_mem_cons.mp h
    have hne' : act.fd ≠ fd := hact ▸ hne.symm
    rw [perform, List.foldl_cons, ← perform, Function.update_of_ne hne',
      Function.update_comm hne'.symm, ih hacts]
    rfl

omit [DecidableEq ι] in
theorem closeConn_put (hne : fd ≠ fd') :
    (put s fd x).closeConn fd' = put (s.closeConn fd') fd x := by
  rw [State.closeConn, State.closeConn, show (put s fd x).users fd' = s.users fd' from rfl]
  cases s.users fd' with
  | none => rfl
  | some slot =>
    have hperform : perform (put s fd x).interest
        (delFd fd' ++ if slot.isClosed then [] else [.close fd']) = _ :=
      perform_update fd_of_mem_close hne
    dsimp only
    rw [hperform]
    rfl

omit [DecidableEq ι] in
theorem handle_put (hne : fd ≠ fd') {events : UInt32} {extend : ℕ}
    (he : handle s fd' events extend = .ok s') :
    handle (put s fd x) fd' events extend = .ok (put s' fd x) := by
  rw [handle] at he ⊢
  rw [show (put s fd x).users fd' = s.users fd' from rfl]
  split at he
  · cases he
  next slot hslot =>
    split_ifs at he ⊢
    · cases he
      rw [closeConn_put hne]
    all_goals
      cases he
      rfl

/-- The operations of the workers and of the listening socket, and the clock. -/
def Aside : Dispatch.Op ι → Prop
  | .deliver _ _ _ | .expire _ => False
  | _ => True

/-- **Nobody but its owner looks how a connection stands.** -/
theorem exec_put {o : Dispatch.Op ι} (hopen : s.isOpen fd = true) (hvacant : (s.view fd).Vacant)
    (ho : Aside o) (hl : Dispatch.Legal cfg s o) (he : Dispatch.exec cfg s o = .ok s') :
    Dispatch.exec cfg (put s fd x) o = .ok (put s' fd x) := by
  cases o with
  | accept fd' =>
    obtain ⟨hpos, -, hclosed⟩ := hl
    have hne : fd ≠ fd' := by
      rintro rfl
      cases hopen.symm.trans hclosed
    change s.accept cfg fd' = _ at he
    show (put s fd x).accept cfg fd' = _
    rw [State.accept] at he ⊢
    rw [show (put s fd x).userCount = s.userCount from rfl]
    rw [if_neg hpos.le.not_gt] at he ⊢
    split at he
    next hfull =>
      cases he
      exact if_pos hfull
    next hroom =>
      rw [if_neg hroom, assert_true hpos, ok_bind]
      rw [assert_true hpos, ok_bind] at he
      cases he
      simp only [put, pure_eq_ok, Function.update_comm hne]
  | deliver => exact ho.elim
  | expire => exact ho.elim
  | tick =>
    cases he
    rfl
  | take i =>
    rw [Dispatch.exec] at he ⊢
    rw [show (put s fd x).queue = s.queue from rfl]
    split at he
    · cases he
      rfl
    · cases he
      rfl
  | work i out =>
    cases he
    refine congrArg Except.ok ?_
    rw [State.work, State.work, show (put s fd x).worker i = s.worker i from rfl]
    rcases hi : s.worker i with _ | ⟨task, pc⟩
    · exact absurd hi hl
    · have hne : fd ≠ task.fd := by
        rintro rfl
        have hnone : taskOn task.fd (s.worker i) = none := hvacant.2 i
        rw [hi, taskOn_self] at hnone
        cases hnone
      cases pc with
      | io | process => rfl
      | rearm mask => simp only [put, perform_update fd_of_mem_modFd hne]; rfl
      | close => exact closeConn_put (s := (s.record task .closeConn).goto i none) hne

/-- **What a batch leaves alone, an operation does beside it.** -/
theorem exec_restored {o : Dispatch.Op ι} {batch : List Report}
    (hbatch : ∀ r ∈ batch, s.isOpen r.fd = true ∧ (s.view r.fd).Vacant) (ho : Aside o)
    (hl : Dispatch.Legal cfg s o) (he : Dispatch.exec cfg s o = .ok s') :
    Dispatch.exec cfg (restored s batch) o = .ok (restored s' batch) := by
  have hlegal : ∀ batch, Dispatch.Legal cfg (restored s batch) o := by
    intro batch
    cases o with
    | deliver => exact ho.elim
    | expire => exact ho.elim
    | accept | tick | take | work => exact hl
  induction batch with
  | nil => exact he
  | cons r batch ih =>
    obtain ⟨⟨hopen, hvacant⟩, hbatch⟩ := List.forall_mem_cons.mp hbatch
    exact exec_put (s := restored s batch) hopen hvacant ho (hlegal batch) (ih hbatch)

omit [DecidableEq ι] in
theorem handle_restored {batch : List Report} {events : UInt32} {extend : ℕ}
    (hfd : fd ∉ batch.map Report.fd) (he : handle s fd events extend = .ok s') :
    handle (restored s batch) fd events extend = .ok (restored s' batch) := by
  induction batch with
  | nil => exact he
  | cons r batch ih =>
    rw [List.map_cons, List.mem_cons, not_or] at hfd
    exact handle_put (s := restored s batch) (Ne.symm hfd.1) (ih hfd.2)

/-! ## The loop refines the dispatcher -/

/-- A report that is still to be handled: its connection is open and has no other owner, and its
client is still the same. -/
structure Report.Held (s : Dispatch.State ι) (r : Report) : Prop where
  legal : ∃ mask, r.stood = .armed mask ∧ r.events ≠ 0 ∧ r.events &&& reportable mask = r.events
  disarmed : s.interest r.fd = .disarmed
  isOpen : s.isOpen r.fd = true
  vacant : (s.view r.fd).Vacant
  client : s.clientAt r.fd = r.client

variable {r : Report} {batch : List Report} {t t' : State ι}

omit [DecidableEq ι] in
theorem Report.Held.of_view (h : r.Held s) (hview : s'.view r.fd = s.view r.fd) : r.Held s' where
  legal := h.legal
  disarmed := (congrArg View.interest hview).trans h.disarmed
  isOpen := (congrArg View.isOpen hview).trans h.isOpen
  vacant := hview ▸ h.vacant
  client := (congrArg View.client hview).trans h.client

/-- **With idle timers off, nothing happens to a connection that is in the batch.** -/
theorem Report.Held.step {o : Dispatch.Op ι} (h : r.Held s) (hoff : cfg.timeoutMs ≤ 0) (hs : Sane s)
    (hdoes : Does cfg s o s') : r.Held s' := by
  obtain hviews | ⟨fd, hturn, hrest⟩ := hdoes.views hs
  · exact h.of_view (hviews r.fd)
  · obtain rfl | hne := eq_or_ne fd r.fd
    · exfalso
      generalize s'.view r.fd = v at hturn
      cases hturn with
      | accepted _ _ hclosed => cases hclosed.symm.trans h.isOpen
      | hungUp _ harmed | queued _ harmed => cases harmed.symm.trans h.disarmed
      | expired hon => exact hon.not_ge hoff
      | taken hq =>
        rw [h.vacant.1] at hq
        cases hq
      | rearmed hi | closed _ hi => cases hi.symm.trans (h.vacant.2 _)
    · exact h.of_view (hrest r.fd hne.symm)

omit [DecidableEq ι] in
theorem Sane.of_restored (h : Sane (restored s batch)) (hnodup : (batch.map Report.fd).Nodup)
    (hheld : ∀ r ∈ batch, r.Held s) : Sane s := by
  refine ⟨fun fd => ⟨(h.views fd).pos, (h.views fd).slot, fun hknown => ?_, fun mask hmask => ?_⟩,
    h.rearm⟩
  all_goals by_cases hfd : fd ∈ batch.map Report.fd
  · obtain ⟨r, hr, rfl⟩ := List.mem_map.mp hfd
    obtain ⟨mask, hstood, -⟩ := (hheld r hr).legal
    refine (h.views r.fd).known ?_
    show standing Report.stood batch s.interest r.fd ≠ .absent
    rw [standing_of_mem hnodup hr, hstood]
    exact Interest.armed_ne_absent
  · refine (h.views fd).known ?_
    show standing Report.stood batch s.interest fd ≠ .absent
    rwa [standing_of_not_mem hfd]
  · obtain ⟨r, hr, rfl⟩ := List.mem_map.mp hfd
    cases hmask.symm.trans (hheld r hr).disarmed
  · exact (h.views fd).oneshot mask ((standing_of_not_mem hfd).trans hmask)

omit [DecidableEq ι] in
/-- A batch that is reported, seen as if it were not. -/
theorem restored_reported (hnodup : (batch.map Report.fd).Nodup)
    (hstood : ∀ r ∈ batch, r.stood = s.interest r.fd) : restored (reported s batch) batch = s := by
  have hinterest : standing Report.stood batch
      (standing (fun r => r.stood.report) batch s.interest) = s.interest := by
    funext fd
    by_cases hfd : fd ∈ batch.map Report.fd
    · obtain ⟨r, hr, rfl⟩ := List.mem_map.mp hfd
      rw [standing_of_mem hnodup hr, hstood r hr]
    · rw [standing_of_not_mem hfd, standing_of_not_mem hfd]
  rw [restored, reported, hinterest]

/-- The server as the dispatcher has it: what is left of the batch has not been reported. -/
def State.unreported (cfg : Config) (t : State ι) : Dispatch.State ι :=
  restored t.server (conns cfg t.batch)

/-- The reports that are still to be handled. -/
structure Pending (cfg : Config) (t : State ι) : Prop where
  nodup : ((conns cfg t.batch).map Report.fd).Nodup
  held : ∀ r ∈ conns cfg t.batch, r.Held t.server

/-- The workers and the listening socket go on beside the batch. -/
theorem Pending.aside (h : Pending cfg t) (hoff : cfg.timeoutMs ≤ 0)
    (hreach : (Dispatch.machine ι cfg).Reach (t.unreported cfg)) {o : Dispatch.Op ι} (ho : Aside o)
    (hl : Dispatch.Legal cfg t.server o) (he : Dispatch.exec cfg t.server o = .ok s')
    (listening : Bool) :
    (Dispatch.machine ι cfg).Leads (t.unreported cfg)
        (State.unreported cfg ⟨s', t.batch, listening⟩) ∧
      Pending cfg ⟨s', t.batch, listening⟩ := by
  have hbatch : ∀ r ∈ conns cfg t.batch,
      t.server.isOpen r.fd = true ∧ (t.server.view r.fd).Vacant :=
    fun r hr => ⟨(h.held r hr).isOpen, (h.held r hr).vacant⟩
  have hsane := Sane.of_restored (Reach.sane hreach) h.nodup h.held
  refine ⟨.one (o := o) ?_ (exec_restored hbatch ho hl he), h.nodup, fun r hr => ?_⟩
  · cases o with
    | deliver => exact ho.elim
    | expire => exact ho.elim
    | accept | tick | take | work => exact hl
  · exact (h.held r hr).step hoff hsane (exec_does hl he)

omit [DecidableEq ι] in
/-- An event is handled once it has been reported. -/
theorem deliver_eq (s : Dispatch.State ι) (fd : ℤ) (events : UInt32) (extend : ℕ) :
    s.deliver fd events extend = handle (s.report fd) fd events extend := rfl

omit [DecidableEq ι] in
/-- The handling of an event is not seen on another descriptor. -/
theorem handle_view {events : UInt32} {extend : ℕ} (he : handle s fd events extend = .ok s')
    (hne : fd' ≠ fd) : s'.view fd' = s.view fd' := by
  rw [handle] at he
  split at he
  · cases he
  · split_ifs at he
    · cases he
      exact closeConn_view_of_ne hne
    · cases he
      exact addTask_view_of_ne .onRead hne
    · cases he
      exact addTask_view_of_ne .onWrite hne
    · cases he
      rfl

variable [Fintype ι]

/-- **`epoll_wait`**: what it reports is open and has no other owner. -/
theorem Pending.wait (hoff : cfg.timeoutMs ≤ 0) (hreach : (Dispatch.machine ι cfg).Reach s)
    {events : List (ℤ × UInt32)} (hnodup : (events.map Prod.fst).Nodup)
    (hevents : ∀ e ∈ events, e.1 ≠ cfg.listenFd → Dispatch.Legal cfg s (.deliver e.1 e.2 0)) :
    State.unreported cfg ⟨reported s (conns cfg (report s events)), report s events, false⟩ = s ∧
      Pending cfg ⟨reported s (conns cfg (report s events)), report s events, false⟩ := by
  have howned := Reach.owned hoff hreach
  have hsane := Reach.sane hreach
  have hfds : ((conns cfg (report s events)).map Report.fd).Nodup := by
    refine List.Nodup.sublist (List.filter_sublist.map _) ?_
    rwa [report, List.map_map]
  have hmem : ∀ r ∈ conns cfg (report s events), r.stood = s.interest r.fd ∧
      r.client = s.clientAt r.fd ∧ Dispatch.Legal cfg s (.deliver r.fd r.events 0) := by
    intro r hr
    obtain ⟨hr, hconn⟩ := List.mem_filter.mp hr
    obtain ⟨e, he, rfl⟩ := List.mem_map.mp hr
    exact ⟨rfl, rfl, hevents e he (of_decide_eq_true hconn)⟩
  refine ⟨restored_reported hfds fun r hr => (hmem r hr).1, hfds, fun r hr => ?_⟩
  obtain ⟨hstood, hclient, hne, mask, harmed, hmask⟩ := hmem r hr
  obtain ⟨hopen, hqueued, hcount⟩ := (howned.sound r.fd).of_armed harmed
  refine ⟨⟨mask, hstood.trans harmed, hne, hmask⟩, ?_, hopen, ⟨hqueued, fun i => ?_⟩, hclient.symm⟩
  · show standing (fun r => r.stood.report) _ s.interest r.fd = .disarmed
    rw [standing_of_mem hfds hr, hstood, harmed]
    exact if_pos ((hsane.views r.fd).oneshot mask harmed)
  · exact Option.not_isSome_iff_eq_none.mp
      (ne_true_of_eq_false (Threads.count_eq_zero_iff.mp hcount i))

omit [Fintype ι] in
/-- **An event of the batch** is the next one that the dispatcher is given. -/
theorem Pending.handle {rest : List Report} {listening : Bool} (hne : r.fd ≠ cfg.listenFd)
    (h : Pending cfg ⟨s, r :: rest, listening⟩)
    (hreach : (Dispatch.machine ι cfg).Reach (State.unreported cfg ⟨s, r :: rest, listening⟩))
    {extend : ℕ} (he : Batch.handle s r.fd r.events extend = .ok s') :
    (Dispatch.machine ι cfg).Leads (State.unreported cfg ⟨s, r :: rest, listening⟩)
        (State.unreported cfg ⟨s', rest, listening⟩) ∧
      Pending cfg ⟨s', rest, listening⟩ := by
  have hconns : conns cfg (r :: rest) = r :: conns cfg rest :=
    List.filter_cons_of_pos (decide_eq_true hne)
  obtain ⟨hnodup, hheld⟩ := h
  have hsane := Reach.sane hreach
  simp only [State.unreported, hconns] at hnodup hheld hsane ⊢
  rw [List.map_cons, List.nodup_cons] at hnodup
  obtain ⟨hr, hheld⟩ := List.forall_mem_cons.mp hheld
  obtain ⟨mask, hstood, hevents, hmask⟩ := hr.legal
  have harmed : (restored s (r :: conns cfg rest)).interest r.fd = .armed mask :=
    (Function.update_self ..).trans hstood
  -- Reported, the descriptor stands as the batch has left it.
  have hreport : (restored s (r :: conns cfg rest)).report r.fd = restored s (conns cfg rest) := by
    have hleft : standing Report.stood (conns cfg rest) s.interest r.fd = .disarmed :=
      (standing_of_not_mem hnodup.1).trans hr.disarmed
    have hinterest : Function.update (restored s (r :: conns cfg rest)).interest r.fd .disarmed
        = standing Report.stood (conns cfg rest) s.interest :=
      (Function.update_idem ..).trans
        (Function.update_eq_iff.mpr ⟨hleft.symm, fun _ _ => rfl⟩)
    rw [State.report, harmed, Interest.report, if_pos ((hsane.views r.fd).oneshot mask harmed),
      hinterest]
    rfl
  refine ⟨.one (o := .deliver r.fd r.events extend) ⟨hevents, mask, harmed, hmask⟩ ?_, hnodup.2,
    fun r' hr' => ?_⟩
  · show Dispatch.State.deliver _ _ _ _ = _
    rw [deliver_eq, hreport]
    exact handle_restored hnodup.1 he
  · refine (hheld r' hr').of_view (handle_view he ?_)
    rintro hfd
    exact hnodup.1 (hfd ▸ List.mem_map_of_mem hr')

/-- **The loop refines the dispatcher**, seen as if the batch had not been reported. -/
theorem refines (hoff : cfg.timeoutMs ≤ 0) :
    (machine ι cfg).Refines (Dispatch.machine ι cfg) (State.unreported cfg) (Pending cfg) where
  init t ht := by
    obtain rfl := ht
    exact ⟨rfl, List.nodup_nil, nofun⟩
  step t o t' hreach hpending hl he := by
    obtain ⟨s, batch, listening⟩ := t
    cases o with
    | wait events =>
      obtain ⟨⟨rfl, rfl⟩, -, hnodup, hevents⟩ := hl
      cases he
      have hreach : (Dispatch.machine ι cfg).Reach s := hreach
      obtain ⟨hsame, hpending⟩ := Pending.wait hoff hreach hnodup hevents
      exact ⟨hsame.symm ▸ .refl, hpending⟩
    | handle extend =>
      obtain ⟨hne, rfl⟩ := hl
      obtain ⟨r, rest, rfl⟩ := List.exists_cons_of_ne_nil hne
      change (if r.fd = cfg.listenFd then _ else _) = _ at he
      split at he
      next hlisten =>
        cases he
        have hconns : conns cfg (r :: rest) = conns cfg rest :=
          List.filter_cons_of_neg (by simpa using hlisten)
        obtain ⟨hnodup, hheld⟩ := hpending
        simp only [State.unreported, hconns] at hnodup hheld ⊢
        exact ⟨.refl, hnodup, hheld⟩
      next hconn =>
        obtain ⟨server, hserver, he⟩ := bind_eq_ok.mp he
        cases he
        exact hpending.handle hconn hreach hserver
    | accept fd =>
      obtain ⟨server, hserver, he⟩ := bind_eq_ok.mp he
      cases he
      obtain ⟨-, hneg | hl⟩ := hl
      · obtain rfl : s = server := Except.ok.inj ((if_pos hneg).symm.trans hserver)
        exact ⟨.refl, hpending.nodup, hpending.held⟩
      · exact hpending.aside hoff hreach (o := .accept fd) trivial hl hserver _
    | tick elapsed =>
      obtain ⟨server, hserver, he⟩ := bind_eq_ok.mp he
      cases he
      exact hpending.aside hoff hreach (o := .tick elapsed) trivial trivial hserver _
    | expire fd => exact absurd hl.2.1 hoff.not_gt
    | take i =>
      obtain ⟨server, hserver, he⟩ := bind_eq_ok.mp he
      cases he
      exact hpending.aside hoff hreach (o := .take i) trivial hl hserver _
    | work i out =>
      obtain ⟨server, hserver, he⟩ := bind_eq_ok.mp he
      cases he
      exact hpending.aside hoff hreach (o := .work i out) trivial hl hserver _

/-! ## The dispatcher refines the loop -/

omit [Fintype ι] in
/-- The listening socket is none of the connections. -/
theorem listen_absent (h : (Dispatch.machine ι cfg).Reach s) :
    s.interest cfg.listenFd = .absent := by
  have hboth : Sane s ∧ s.interest cfg.listenFd = .absent := by
    refine h.invariant (I := fun s => Sane s ∧ s.interest cfg.listenFd = .absent) ?_ ?_
    · intro s hs
      refine ⟨Reach.sane (.init hs), ?_⟩
      obtain rfl := hs
      rfl
    · rintro s o s' ⟨hs, habsent⟩ hl he
      have hdoes := exec_does hl he
      refine ⟨hdoes.sane hs, ?_⟩
      obtain hviews | ⟨fd, hturn, hrest⟩ := hdoes.views hs
      · exact (congrArg View.interest (hviews _)).trans habsent
      · obtain rfl | hne := eq_or_ne fd cfg.listenFd
        · show (s'.view cfg.listenFd).interest = .absent
          generalize s'.view cfg.listenFd = v at hturn
          cases hturn with
          | accepted ho =>
            subst ho
            exact absurd rfl hl.2.1
          | hungUp _ harmed | queued _ harmed => cases harmed.symm.trans habsent
          | expired | closed => rfl
          | taken => exact habsent
          | @rearmed _ _ mask =>
            show (Act.epollMod cfg.listenFd mask).on (s.interest cfg.listenFd) = .absent
            rw [habsent]
            rfl
        · exact (congrArg View.interest (hrest _ hne.symm)).trans habsent
  exact hboth.2

/-- The loop between two batches. -/
def between (s : Dispatch.State ι) : State ι := ⟨s, [], false⟩

omit [Fintype ι] in
/-- A client is a batch with the listening socket in it; with `EPOLLET`, `_dealListen` then asks for
another, and `accept` fails. -/
theorem leads_accept (hl : Dispatch.Legal cfg s (.accept fd)) (he : s.accept cfg fd = .ok s') :
    (machine ι cfg).Leads (between s) (between s') := by
  set r : Report := ⟨cfg.listenFd, EPOLLIN, s.interest cfg.listenFd, s.clientAt cfg.listenFd⟩
    with hr
  have hconns : conns cfg [r] = [] := List.filter_cons_of_neg (by simp [hr])
  have hwait : exec cfg (between s) (.wait [(cfg.listenFd, EPOLLIN)]) = .ok ⟨s, [r], false⟩ := by
    show Except.ok (State.mk (reported s (conns cfg [r])) [r] false) = _
    rw [hconns]
    rfl
  have hhandle : exec cfg ⟨s, [r], false⟩ (.handle 0) = .ok ⟨s, [], true⟩ := if_pos rfl
  have haccept : exec cfg ⟨s, [], true⟩ (.accept fd) = .ok ⟨s', [], _⟩ :=
    bind_eq_ok.mpr ⟨s', he, rfl⟩
  have hlegal : Legal cfg (between s) (.wait [(cfg.listenFd, EPOLLIN)]) :=
    ⟨⟨rfl, rfl⟩, Nat.succ_le_succ (Nat.zero_le _), List.nodup_singleton _, by simp⟩
  have hlisten : (machine ι cfg).Leads (between s) ⟨s, [r], false⟩ :=
    .one (M := machine ι cfg) (o := .wait _) hlegal hwait
  have hturn : (machine ι cfg).Leads (between s) ⟨s, [], true⟩ :=
    hlisten.tail ⟨.handle 0, ⟨List.cons_ne_nil _ _, rfl⟩, hhandle⟩
  have hpass : (machine ι cfg).Leads (between s) ⟨s', [], _⟩ :=
    hturn.tail ⟨.accept fd, ⟨rfl, .inr hl⟩, haccept⟩
  cases hagain : decide (0 ≤ fd ∧ s.userCount < MAX_FD) && (listenEvent cfg &&& EPOLLET != 0)
  · rwa [hagain] at hpass
  · rw [hagain] at hpass
    exact hpass.tail ⟨.accept (-1), ⟨rfl, .inl (by decide)⟩, rfl⟩

omit [Fintype ι] in
/-- An event of a connection is a batch. -/
theorem leads_deliver {events : UInt32} {extend : ℕ} (hne : fd ≠ cfg.listenFd)
    (hl : Dispatch.Legal cfg s (.deliver fd events extend))
    (he : s.deliver fd events extend = .ok s') :
    (machine ι cfg).Leads (between s) (between s') := by
  set r : Report := ⟨fd, events, s.interest fd, s.clientAt fd⟩ with hr
  have hconns : conns cfg [r] = [r] := List.filter_cons_of_pos (decide_eq_true hne)
  have hwait : exec cfg (between s) (.wait [(fd, events)]) = .ok ⟨s.report fd, [r], false⟩ := by
    show Except.ok (State.mk (reported s (conns cfg [r])) [r] false) = _
    rw [hconns]
    rfl
  have hhandle : exec cfg ⟨s.report fd, [r], false⟩ (.handle extend) = .ok (between s') :=
    (if_neg hne).trans (bind_eq_ok.mpr ⟨s', he, rfl⟩)
  have hlegal : Legal cfg (between s) (.wait [(fd, events)]) :=
    ⟨⟨rfl, rfl⟩, Nat.succ_le_succ (Nat.zero_le _), List.nodup_singleton _,
      List.forall_mem_singleton.mpr fun _ => hl⟩
  have hreport : (machine ι cfg).Leads (between s) ⟨s.report fd, [r], false⟩ :=
    .one (M := machine ι cfg) (o := .wait _) hlegal hwait
  exact hreport.tail ⟨.handle extend, ⟨List.cons_ne_nil _ _, rfl⟩, hhandle⟩

omit [Fintype ι] in
/-- **The dispatcher refines the loop**: each of its events is a batch. -/
theorem refined : (Dispatch.machine ι cfg).Refines (machine ι cfg) between
    (Dispatch.machine ι cfg).Reach where
  init s hs := ⟨congrArg between hs, .init hs⟩
  step s o s' _ hs hl he := by
    refine ⟨?_, hs.step hl he⟩
    cases o with
    | accept fd => exact leads_accept hl he
    | deliver fd events extend =>
      refine leads_deliver ?_ hl he
      rintro rfl
      obtain ⟨-, mask, harmed, -⟩ := hl
      cases harmed.symm.trans (listen_absent hs)
    | tick elapsed =>
      exact .one (M := machine ι cfg) (o := .tick elapsed) trivial (bind_eq_ok.mpr ⟨s', he, rfl⟩)
    | expire fd =>
      exact .one (M := machine ι cfg) (o := .expire fd) ⟨⟨rfl, rfl⟩, hl⟩
        (bind_eq_ok.mpr ⟨s', he, rfl⟩)
    | take i =>
      exact .one (M := machine ι cfg) (o := .take i) hl (bind_eq_ok.mpr ⟨s', he, rfl⟩)
    | work i out =>
      exact .one (M := machine ι cfg) (o := .work i out) hl (bind_eq_ok.mpr ⟨s', he, rfl⟩)

/-- **No step of the loop fails.** -/
theorem exec_ok (hoff : cfg.timeoutMs ≤ 0) (ht : (machine ι cfg).Reach t) {o : Op ι}
    (hl : Legal cfg t o) : ∃ t', exec cfg t o = .ok t' := by
  obtain ⟨hreach, hpending⟩ := (refines hoff).reach ht
  have hsane := Sane.of_restored (Reach.sane hreach) hpending.nodup hpending.held
  have hserver : ∀ {o}, Dispatch.Legal cfg t.server o → ∀ f : Dispatch.State ι → State ι,
      ∃ t', (Dispatch.exec cfg t.server o >>= fun server => Except.ok (f server))
        = (.ok t' : Exec (State ι)) := by
    intro o hl f
    obtain ⟨server, he⟩ := hsane.exec_ok hl
    exact ⟨f server, bind_eq_ok.mpr ⟨server, he, rfl⟩⟩
  cases o with
  | wait => exact ⟨_, rfl⟩
  | handle extend =>
    obtain ⟨hne, -⟩ := hl
    obtain ⟨r, rest, hbatch⟩ := List.exists_cons_of_ne_nil hne
    rw [exec, hbatch]
    dsimp only
    split
    · exact ⟨_, rfl⟩
    next hconn =>
      have hheld := hpending.held r (by
        rw [hbatch]
        exact List.mem_filter.mpr ⟨List.mem_cons_self .., decide_eq_true hconn⟩)
      cases hslot : t.server.users r.fd with
      | none =>
        have hopen := hheld.isOpen
        rw [Dispatch.State.isOpen, hslot] at hopen
        cases hopen
      | some slot =>
        rw [handle, hslot]
        dsimp only
        split_ifs <;> exact ⟨_, rfl⟩
  | accept fd =>
    obtain ⟨-, hneg | hl⟩ := hl
    · exact ⟨_, bind_eq_ok.mpr ⟨t.server, if_pos hneg, rfl⟩⟩
    · exact hserver hl _
  | tick => exact hserver (o := .tick _) trivial _
  | expire => exact hserver hl.2 _
  | take => exact hserver (o := .take _) hl _
  | work => exact hserver (o := .work _ _) hl _

/-- **With idle timers off, it makes no difference that events come in batches.**  No step of the
loop fails.  An event is handled for the client that it was reported for, which is still open and
has no other owner.  If what is left of the batch is taken for not yet reported, the server is in a
state of the dispatcher; and between two batches it can be in each of these. -/
theorem batch_exact (hoff : cfg.timeoutMs ≤ 0) :
    (∀ t, (machine ι cfg).Reach t →
      (∀ o, Legal cfg t o → ∃ t', exec cfg t o = .ok t') ∧
      (∀ r ∈ t.batch, r.fd ≠ cfg.listenFd → t.server.isOpen r.fd = true ∧
        t.server.clientAt r.fd = r.client ∧ (t.server.view r.fd).owners = 0) ∧
      (Dispatch.machine ι cfg).Reach (t.unreported cfg)) ∧
    ∀ s, (Dispatch.machine ι cfg).Reach s ↔ (machine ι cfg).Reach (between s) := by
  refine ⟨fun t ht => ?_, fun s => ⟨fun hs => (refined.reach hs).1, fun hs => ?_⟩⟩
  · obtain ⟨hreach, hpending⟩ := (refines hoff).reach ht
    refine ⟨fun o hl => exec_ok hoff ht hl, fun r hr hconn => ?_, hreach⟩
    have hheld := hpending.held r (List.mem_filter.mpr ⟨hr, decide_eq_true hconn⟩)
    refine ⟨hheld.isOpen, hheld.client, ?_⟩
    have hcount : Threads.count (t.server.view r.fd).running Option.isSome = 0 :=
      Threads.count_eq_zero_iff.mpr fun i => by rw [hheld.vacant.2 i]; rfl
    show (t.server.interest r.fd).isArmed.toNat + (t.server.view r.fd).queued.length + _ = 0
    rw [hheld.disarmed, hheld.vacant.1, hcount]
    rfl
  · exact ((refines hoff).reach hs).1

/-- The second client is let in while an event of the first is in the batch. -/
theorem batch_exact_listening : ∃ (cfg : Config) (t : State (Fin 1)),
    t.batch.map Report.fd = [5] ∧ t.server.isOpen 6 = true ∧ t.server.clientAt 5 = some 0 ∧
      (Dispatch.machine (Fin 1) cfg).Reach (t.unreported cfg) := by
  set cfg : Config := { listenFd := 3, timeoutMs := 0, triggerMode := 3 } with hcfg
  have hs : (Dispatch.machine (Fin 1) cfg).Reach _ :=
    .step (o := .accept 5) (.init rfl) ⟨by decide, by decide, rfl⟩ rfl
  have h₁ : (machine (Fin 1) cfg).Reach _ :=
    .step (o := .wait [(3, EPOLLIN), (5, EPOLLIN)]) (refined.reach hs).1 ⟨⟨rfl, rfl⟩, by decide,
      by decide, List.forall_mem_cons.mpr ⟨fun hne => absurd rfl hne,
        List.forall_mem_singleton.mpr fun _ => ⟨by decide, _, rfl, by decide⟩⟩⟩ rfl
  have h₂ : (machine (Fin 1) cfg).Reach _ :=
    .step (o := .handle 0) h₁ ⟨List.cons_ne_nil _ _, rfl⟩ rfl
  have h₃ : (machine (Fin 1) cfg).Reach _ :=
    .step (o := .accept 6) h₂ ⟨rfl, .inr ⟨by decide, by decide, rfl⟩⟩ rfl
  obtain ⟨-, hclient, hreach⟩ := (batch_exact (by decide)).1 _ h₃
  exact ⟨cfg, _, rfl, rfl, (hclient _ (List.mem_singleton_self _) (by decide)).2.1, hreach⟩

/-- With idle timers, the event of a client may be handled for another: a task that the timer left
on the descriptor closes the second client once its event is reported, and a third is let in. -/
theorem not_batch_exact_reused : ∃ cfg : Config, 0 < cfg.timeoutMs ∧ ∃ t : State (Fin 1),
    (machine (Fin 1) cfg).Reach t ∧ ∃ r ∈ t.batch, r.fd ≠ cfg.listenFd ∧
      r.client = some 1 ∧ t.server.clientAt r.fd = some 2 := by
  set cfg : Config := { listenFd := 3, timeoutMs := 1, triggerMode := 3 } with hcfg
  have hs₁ : (Dispatch.machine (Fin 1) cfg).Reach _ :=
    .step (o := .accept 5) (.init rfl) ⟨by decide, by decide, rfl⟩ rfl
  have hs₂ : (Dispatch.machine (Fin 1) cfg).Reach _ :=
    .step (o := .deliver 5 EPOLLIN 0) hs₁ ⟨by decide, _, rfl, by decide⟩ rfl
  have hs₃ : (Dispatch.machine (Fin 1) cfg).Reach _ :=
    .step (o := .tick 1000000) hs₂ trivial rfl
  have hs₄ : (Dispatch.machine (Fin 1) cfg).Reach _ :=
    .step (o := .expire 5) hs₃ ⟨by decide, _, rfl, by decide⟩ rfl
  have hs₅ : (Dispatch.machine (Fin 1) cfg).Reach _ :=
    .step (o := .accept 5) hs₄ ⟨by decide, by decide, rfl⟩ rfl
  have h₁ : (machine (Fin 1) cfg).Reach _ :=
    .step (o := .wait [(3, EPOLLIN), (5, EPOLLIN)]) (refined.reach hs₅).1 ⟨⟨rfl, rfl⟩, by decide,
      by decide, List.forall_mem_cons.mpr ⟨fun hne => absurd rfl hne,
        List.forall_mem_singleton.mpr fun _ => ⟨by decide, _, rfl, by decide⟩⟩⟩ rfl
  have h₂ : (machine (Fin 1) cfg).Reach _ :=
    .step (o := .take 0) h₁ ⟨rfl, List.cons_ne_nil _ _⟩ rfl
  have h₃ : (machine (Fin 1) cfg).Reach _ :=
    .step (o := .work 0 ⟨0, 0, 0, false, false⟩) h₂ (Option.some_ne_none _) rfl
  have h₄ : (machine (Fin 1) cfg).Reach _ :=
    .step (o := .work 0 ⟨0, 0, 0, false, false⟩) h₃ (Option.some_ne_none _) rfl
  have h₅ : (machine (Fin 1) cfg).Reach _ :=
    .step (o := .handle 0) h₄ ⟨List.cons_ne_nil _ _, rfl⟩ rfl
  have h₆ : (machine (Fin 1) cfg).Reach _ :=
    .step (o := .accept 5) h₅ ⟨rfl, .inr ⟨by decide, by decide, rfl⟩⟩ rfl
  exact ⟨cfg, by decide, _, h₆, _, List.mem_singleton_self _, by decide, rfl, rfl⟩

end Batch

end Server

end WebServer
