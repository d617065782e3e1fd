import WebServer.Server.Courses

/-!
# Server/Views — a step of the server, seen from one descriptor

What concerns a descriptor is its `View`: its slot, how it stands in the epoll instance, and the
tasks on it, queued and running.  A step changes the view of one descriptor at most, and each lemma
here says how.
-/

namespace WebServer

namespace Server

open Epoller

namespace Dispatch

variable {ι : Type}

structure View (ι : Type) where
  slot : Option Slot
  interest : Interest
  queued : List Task
  running : ι → Option Task

/-- The task of a worker, if it is on the descriptor. -/
def taskOn (fd : ℤ) (place : Option (Task × Pc)) : Option Task :=
  (place.map Prod.fst).filter fun task => task.fd = fd

def State.view (s : State ι) (fd : ℤ) : View ι where
  slot := s.users fd
  interest := s.interest fd
  queued := s.queue.filter fun task => task.fd = fd
  running := taskOn fd ∘ s.worker

/-- The task concerns the descriptor. -/
def View.Has (v : View ι) (task : Task) : Prop :=
  task ∈ v.queued ∨ ∃ i, v.running i = some task

/-- No task concerns the descriptor. -/
def View.Vacant (v : View ι) : Prop := v.queued = [] ∧ ∀ i, v.running i = none

variable {s : State ι} {fd fd' : ℤ} {i : ι} {task : Task} {pc : Pc} {slot : Slot}

theorem taskOn_self : taskOn task.fd (some (task, pc)) = some task := by
  simp [taskOn]

theorem taskOn_of_ne (h : fd ≠ task.fd) : taskOn fd (some (task, pc)) = none := by
  simp [taskOn, h.symm]

theorem taskOn_eq_some_iff {place : Option (Task × Pc)} :
    taskOn fd place = some task ↔ task.fd = fd ∧ ∃ pc, place = some (task, pc) := by
  rcases place with _ | ⟨task', pc⟩
  · simp [taskOn]
  · simp only [taskOn, Option.map_some, Option.filter_eq_some_iff, Option.some.injEq,
      decide_eq_true_eq, Prod.mk.injEq]
    constructor
    · rintro ⟨rfl, hfd⟩
      exact ⟨hfd, pc, rfl, rfl⟩
    · rintro ⟨hfd, -, rfl, -⟩
      exact ⟨rfl, hfd⟩

/-! ## The calls on the epoll instance -/

section Epoll

variable {interest : ℤ → Interest} {acts : List Act}

/-- Calls on one descriptor leave the others alone. -/
theorem perform_of_ne (h : ∀ act ∈ acts, act.fd = fd) (hne : fd' ≠ fd) :
    perform interest acts fd' = interest fd' := by
  induction acts generalizing interest with
  | nil => rfl
  | cons act acts ih =>
    obtain ⟨hact, hacts⟩ := List.forall_mem_cons.mp h
    rw [perform, List.foldl_cons, ← perform, ih hacts, hact, Function.update_of_ne hne]

theorem fd_of_mem_modFd {events : UInt32} : ∀ act ∈ modFd fd events, act.fd = fd := by
  intro act hact
  rw [modFd] at hact
  split at hact
  · cases hact
  · rw [List.mem_singleton.mp hact]
    rfl

theorem fd_of_mem_close {closed : Bool} :
    ∀ act ∈ delFd fd ++ (if closed then [] else [Act.close fd]), act.fd = fd := by
  intro act hact
  obtain hact | hact := List.mem_append.mp hact
  · rw [delFd] at hact
    split at hact
    · cases hact
    · rw [List.mem_singleton.mp hact]
      rfl
  · cases closed
    · rw [List.mem_singleton.mp hact]
      rfl
    · cases hact

theorem perform_modFd_self (hfd : 0 < fd) (events : UInt32) :
    perform interest (modFd fd events) fd = (Act.epollMod fd events).on (interest fd) := by
  rw [modFd, if_neg hfd.le.not_gt]
  exact Function.update_self _ _ _

theorem perform_close_self (hfd : 0 < fd) (closed : Bool) :
    perform interest (delFd fd ++ if closed then [] else [Act.close fd]) fd = .absent := by
  rw [delFd, if_neg hfd.le.not_gt]
  cases closed
  · exact Function.update_self _ _ _
  · exact Function.update_self _ _ _

end Epoll

/-! ## The steps -/

theorem closeConn_view_self (hslot : s.users fd = some slot) (hfd : 0 < fd) :
    (s.closeConn fd).view fd =
      { s.view fd with slot := some { slot with isClosed := true }, interest := .absent } := by
  rw [State.closeConn, hslot]
  simp only [State.view, Function.update_self, perform_close_self hfd]

theorem closeConn_view_of_ne (hne : fd' ≠ fd) : (s.closeConn fd).view fd' = s.view fd' := by
  rw [State.closeConn]
  split
  · rfl
  · simp only [State.view, Function.update_of_ne hne, perform_of_ne fd_of_mem_close hne]

theorem report_view_self {mask : UInt32} (harmed : s.interest fd = .armed mask) :
    (s.report fd).view fd = { s.view fd with interest := (Interest.armed mask).report } := by
  simp only [State.report, State.view, Function.update_self, harmed]

theorem report_view_of_ne (hne : fd' ≠ fd) : (s.report fd).view fd' = s.view fd' := by
  simp only [State.report, State.view, Function.update_of_ne hne]

theorem addTask_view_self (kind : Kind) : (s.addTask kind fd slot).view fd =
    { s.view fd with queued := (s.view fd).queued ++ [⟨s.tasks, kind, fd, slot.client⟩] } := by
  simp [State.addTask, State.view]

theorem addTask_view_of_ne (kind : Kind) (hne : fd' ≠ fd) :
    (s.addTask kind fd slot).view fd' = s.view fd' := by
  simp [State.addTask, State.view, hne.symm]

theorem goto_view [DecidableEq ι] (place : Option (Task × Pc)) : (s.goto i place).view fd =
    { s.view fd with running := Function.update (s.view fd).running i (taskOn fd place) } := by
  simp only [State.goto, State.view, Function.comp_update]

/-- A worker that is on another descriptor before and after is not seen. -/
theorem goto_view_of_eq [DecidableEq ι] {place : Option (Task × Pc)}
    (h : taskOn fd place = taskOn fd (s.worker i)) : (s.goto i place).view fd = s.view fd := by
  rw [goto_view, h]
  show { s.view fd with running := Function.update (s.view fd).running i ((s.view fd).running i) }
    = s.view fd
  rw [Function.update_eq_self]

/-! ## All that a step can do -/

/-- The client in the slot. -/
def View.client (v : View ι) : Option ℕ := v.slot.map Slot.client

def View.isOpen (v : View ι) : Bool := v.slot.any fun slot => !slot.isClosed

/-- The slot is closed, and the descriptor with it. -/
def View.close (v : View ι) (slot : Slot) : View ι :=
  { v with slot := some { slot with isClosed := true }, interest := .absent }

/-- What every run keeps: what is in the epoll instance and what tasks are on is in `_users`, and
every mask has `EPOLLONESHOT`. -/
structure View.Sane (fd : ℤ) (v : View ι) : Prop where
  pos : ∀ slot, v.slot = some slot → 0 < fd
  slot : ∀ task, v.Has task → ∃ slot, v.slot = some slot
  known : v.interest ≠ .absent → ∃ slot, v.slot = some slot
  oneshot : ∀ mask, v.interest = .armed mask → mask &&& EPOLLONESHOT ≠ 0

structure Sane (s : State ι) : Prop where
  views : ∀ fd, (s.view fd).Sane fd
  rearm : ∀ i task mask, s.worker i = some (task, .rearm mask) → mask &&& EPOLLONESHOT ≠ 0

variable [DecidableEq ι]

/-- **What a step can do to the view of its descriptor.** -/
inductive Turn (cfg : Config) (s : State ι) (o : Op ι) (fd : ℤ) : View ι → Prop
  | accepted (ho : o = .accept fd) (hpos : 0 < fd) (hclosed : (s.view fd).isOpen = false)
      (hroom : s.userCount < MAX_FD) :
      Turn cfg s o fd { s.view fd with
        slot := some ⟨false, s.clients⟩, interest := .armed (EPOLLIN ||| cfg.connEvent) }
  | hungUp {slot : Slot} {mask : UInt32} (hslot : (s.view fd).slot = some slot)
      (harmed : (s.view fd).interest = .armed mask) : Turn cfg s o fd ((s.view fd).close slot)
  | queued {slot : Slot} {mask : UInt32} {task : Task} (hslot : (s.view fd).slot = some slot)
      (harmed : (s.view fd).interest = .armed mask) (hclient : task.client = slot.client) :
      Turn cfg s o fd { s.view fd with
        interest := (Interest.armed mask).report, queued := (s.view fd).queued ++ [task] }
  | expired {slot : Slot} (hon : 0 < cfg.timeoutMs) (hslot : (s.view fd).slot = some slot) :
      Turn cfg s o fd ((s.view fd).close slot)
  | taken {i : ι} {task : Task} {rest : List Task} (hq : (s.view fd).queued = task :: rest)
      (hi : (s.view fd).running i = none) :
      Turn cfg s o fd { s.view fd with
        queued := rest, running := Function.update (s.view fd).running i (some task) }
  | rearmed {i : ι} {task : Task} {mask : UInt32} (hi : (s.view fd).running i = some task)
      (hmask : mask &&& EPOLLONESHOT ≠ 0) :
      Turn cfg s o fd { s.view fd with
        running := Function.update (s.view fd).running i none
        interest := (Act.epollMod fd mask).on (s.view fd).interest }
  | closed {i : ι} {task : Task} {slot : Slot} (hslot : (s.view fd).slot = some slot)
      (hi : (s.view fd).running i = some task) :
      Turn cfg s o fd (View.close
        { s.view fd with running := Function.update (s.view fd).running i none } slot)

/-- **A step changes one view at most**, and in one of these ways. -/
theorem Does.views {cfg : Config} {s s' : State ι} {o : Op ι} (h : Does cfg s o s')
    (hs : Sane s) : (∀ fd, s'.view fd = s.view fd) ∨
      ∃ fd, Turn cfg s o fd (s'.view fd) ∧ ∀ fd' ≠ fd, s'.view fd' = s.view fd' := by
  have hon : ∀ {i : ι} {task : Task} {pc : Pc}, s.worker i = some (task, pc) →
      (s.view task.fd).running i = some task := by
    intro i task pc hi
    simp only [State.view, Function.comp_apply, hi, taskOn_self]
  have hleave : ∀ {i : ι} {task : Task} {pc : Pc}, s.worker i = some (task, pc) →
      ∀ fd' ≠ task.fd, (s.goto i none).view fd' = s.view fd' := by
    intro i task pc hi fd' hne
    exact goto_view_of_eq (by rw [hi, taskOn_of_ne hne]; rfl)
  cases h with
  | refused | passed => exact .inl fun _ => rfl
  | @accepted fd hpos hclosed hroom =>
    refine .inr ⟨fd, ?_, fun fd' hne => ?_⟩
    · have hturn : Turn cfg s (.accept fd) fd { s.view fd with
          slot := some ⟨false, s.clients⟩
          interest := .armed (EPOLLIN ||| cfg.connEvent) } := .accepted rfl hpos hclosed hroom
      simpa only [State.view, Function.update_self] using hturn
    · simp only [State.view, Function.update_of_ne hne]
  | @hungUp fd _ _ slot mask hslot harmed =>
    refine .inr ⟨fd, ?_, fun fd' hne => (closeConn_view_of_ne hne).trans (report_view_of_ne hne)⟩
    rw [closeConn_view_self (s := s.report fd) hslot ((hs.views fd).pos slot hslot),
      report_view_self harmed]
    exact .hungUp hslot harmed
  | @dealt fd _ extend slot mask hslot harmed kind =>
    refine .inr ⟨fd, ?_, fun fd' hne => ?_⟩
    · rw [addTask_view_self]
      show Turn cfg s _ fd { (s.report fd).view fd with
        queued := ((s.report fd).view fd).queued ++ [_] }
      rw [report_view_self harmed]
      exact .queued hslot harmed rfl
    · rw [addTask_view_of_ne kind hne]
      show (s.report fd).view fd' = s.view fd'
      exact report_view_of_ne hne
  | @expired fd hon =>
    cases hslot : s.users fd with
    | none =>
      refine .inl fun fd' => ?_
      show (s.closeConn fd).view fd' = s.view fd'
      rw [State.closeConn, hslot]
    | some slot =>
      refine .inr ⟨fd, ?_, fun fd' hne => closeConn_view_of_ne hne⟩
      show Turn cfg s _ fd ((s.closeConn fd).view fd)
      rw [closeConn_view_self hslot ((hs.views fd).pos slot hslot)]
      exact .expired hon hslot
  | @taken i task rest hq hi =>
    refine .inr ⟨task.fd, ?_, fun fd' hfd => ?_⟩
    · have hqueued : (s.view task.fd).queued
          = task :: rest.filter fun other => other.fd = task.fd := by
        simp [State.view, hq]
      have hidle : (s.view task.fd).running i = none := by
        simp [State.view, hi, taskOn]
      show Turn cfg s _ task.fd
        { (s.goto i (some (task, .io))).view task.fd with
          queued := rest.filter fun other => other.fd = task.fd }
      rw [goto_view, taskOn_self]
      exact .taken hqueued hidle
    · have hqueued : (s.view fd').queued = rest.filter fun other => other.fd = fd' := by
        simp [State.view, hq, hfd.symm]
      show { (s.goto i (some (task, .io))).view fd' with
        queued := rest.filter fun other => other.fd = fd' } = s.view fd'
      rw [goto_view_of_eq (by rw [taskOn_of_ne hfd, hi]; rfl), ← hqueued]
  | @touched i out task pc hi _ =>
    refine .inl fun fd => ?_
    have hstay : taskOn fd (some (task, pc.next cfg.connEvent out task.kind))
        = taskOn fd (s.worker i) := by rw [hi]; rfl
    exact goto_view_of_eq hstay
  | @rearmed i _ task mask hi =>
    obtain ⟨slot, hslot⟩ := (hs.views task.fd).slot task (.inr ⟨i, hon hi⟩)
    refine .inr ⟨task.fd, ?_, fun fd' hne => ?_⟩
    · show Turn cfg s _ task.fd { (s.goto i none).view task.fd with
        interest := perform s.interest (modFd task.fd mask) task.fd }
      rw [goto_view, perform_modFd_self ((hs.views task.fd).pos slot hslot)]
      exact .rearmed (hon hi) (hs.rearm i task mask hi)
    · show { (s.goto i none).view fd' with
        interest := perform s.interest (modFd task.fd mask) fd' } = s.view fd'
      rw [hleave hi fd' hne, perform_of_ne fd_of_mem_modFd hne]
      rfl
  | @closed i _ task hi =>
    obtain ⟨slot, hslot⟩ := (hs.views task.fd).slot task (.inr ⟨i, hon hi⟩)
    refine .inr ⟨task.fd, ?_, fun fd' hne => (closeConn_view_of_ne hne).trans (hleave hi fd' hne)⟩
    have hself : ((s.record task .closeConn).goto i none).view task.fd =
        { s.view task.fd with
          running := Function.update (s.view task.fd).running i none } := goto_view none
    rw [closeConn_view_self (s := (s.record task .closeConn).goto i none) hslot
      ((hs.views task.fd).pos slot hslot), hself]
    exact .closed hslot (hon hi)

/-! ## What every run keeps -/

section Turn

variable {cfg : Config} {o : Op ι} {v : View ι}

/-- **A task comes to a descriptor for the client in its slot**, and from nowhere else. -/
theorem Turn.has (h : Turn cfg s o fd v) (ht : v.Has task) :
    (s.view fd).Has task ∨ v.client = some task.client := by
  have hrun : ∀ {i : ι} {place : Option Task}, (∃ j, Function.update (s.view fd).running i place j
      = some task) → place = some task ∨ (s.view fd).Has task := by
    rintro i place ⟨j, hj⟩
    obtain rfl | hne := eq_or_ne j i
    · exact .inl (by rwa [Function.update_self] at hj)
    · exact .inr (.inr ⟨j, by rwa [Function.update_of_ne hne] at hj⟩)
  cases h with
  | accepted | hungUp | expired => exact .inl ht
  | queued hslot _ hclient =>
    obtain ht | hi := ht
    · obtain ht | ht := List.mem_append.mp ht
      · exact .inl (.inl ht)
      · rw [List.mem_singleton.mp ht, hclient, View.client, hslot]
        exact .inr rfl
    · exact .inl (.inr hi)
  | taken hq _ =>
    obtain ht | hi := ht
    · exact .inl (.inl (hq ▸ List.mem_cons_of_mem _ ht))
    · obtain hi | hi := hrun hi
      · exact .inl (.inl (hq ▸ Option.some.inj hi ▸ List.mem_cons_self))
      · exact .inl hi
  | rearmed | closed =>
    obtain ht | hi := ht
    · exact .inl (.inl ht)
    · exact .inl ((hrun hi).resolve_left nofun)

/-- **The client in a slot is the same until another is accepted on the descriptor.** -/
theorem Turn.client (h : Turn cfg s o fd v) : v.client = (s.view fd).client ∨
    o = .accept fd ∧ (s.view fd).isOpen = false ∧ s.userCount < MAX_FD := by
  cases h with
  | accepted ho _ hclosed hroom => exact .inr ⟨ho, hclosed, hroom⟩
  | hungUp hslot | expired _ hslot | closed hslot =>
    refine .inl ?_
    rw [View.client, View.client, hslot]
    rfl
  | queued | taken | rearmed => exact .inl rfl

theorem Turn.sane (h : Turn cfg s o fd v) (hs : (s.view fd).Sane fd) : v.Sane fd := by
  have hslot : ∀ task, v.Has task → ∃ slot, v.slot = some slot := by
    intro task ht
    obtain ht | ht := h.has ht
    · obtain ⟨slot, hslot⟩ := hs.slot task ht
      cases h with
      | accepted | hungUp | expired | closed => exact ⟨_, rfl⟩
      | queued | taken | rearmed => exact ⟨slot, hslot⟩
    · obtain ⟨slot, hslot, -⟩ := Option.map_eq_some_iff.mp ht
      exact ⟨slot, hslot⟩
  cases h with
  | accepted _ hpos _ _ =>
    refine ⟨fun _ _ => hpos, hslot, fun _ => ⟨_, rfl⟩, fun mask hmask => ?_⟩
    rw [← Interest.armed.inj hmask, UInt32.or_comm]
    exact connEvent_oneshot cfg _
  | hungUp hself | expired _ hself | closed hself =>
    exact ⟨fun _ _ => hs.pos _ hself, hslot, fun _ => ⟨_, rfl⟩, fun _ hmask => nomatch hmask⟩
  | queued hself harmed _ =>
    refine ⟨hs.pos, hslot, fun _ => ⟨_, hself⟩, fun mask hmask => ?_⟩
    rw [Interest.report, if_pos (hs.oneshot _ harmed)] at hmask
    cases hmask
  | taken => exact ⟨hs.pos, hslot, hs.known, hs.oneshot⟩
  | @rearmed i task events hi honeshot =>
    refine ⟨hs.pos, hslot, fun _ => hs.slot task (.inr ⟨i, hi⟩), fun mask hmask => ?_⟩
    change (Act.epollMod fd events).on (s.view fd).interest = .armed mask at hmask
    cases hinterest : (s.view fd).interest with
    | absent =>
      rw [hinterest] at hmask
      cases hmask
    | disarmed | armed =>
      rw [hinterest] at hmask
      exact Interest.armed.inj hmask ▸ honeshot

end Turn

theorem Course.rearm {w : Workload ι} (h : Course s w)
    (hs : ∀ i task mask, s.worker i = some (task, .rearm mask) → mask &&& EPOLLONESHOT ≠ 0) :
    ∀ i task mask, w.worker i = some (task, .rearm mask) → mask &&& EPOLLONESHOT ≠ 0 := by
  have hupdate : ∀ {i : ι} {place : Option (Task × Pc)},
      (∀ task mask, place = some (task, .rearm mask) → mask &&& EPOLLONESHOT ≠ 0) →
      ∀ j task mask, Function.update s.worker i place j = some (task, .rearm mask) →
        mask &&& EPOLLONESHOT ≠ 0 := fun hplace j =>
    Threads.update_forall (Q := fun place : Option (Task × Pc) => ∀ task mask,
      place = some (task, .rearm mask) → mask &&& EPOLLONESHOT ≠ 0) hs hplace j
  cases h with
  | unchanged | added => exact hs
  | taken | ended => exact hupdate nofun
  | touched _ _ honeshot =>
    refine hupdate fun task mask h => ?_
    exact honeshot mask (Prod.mk.inj (Option.some.inj h)).2

/-- **Every run keeps it.** -/
theorem Does.sane {cfg : Config} {s s' : State ι} {o : Op ι} (h : Does cfg s o s')
    (hs : Sane s) : Sane s' := by
  refine ⟨fun fd => ?_, h.course.rearm hs.rearm⟩
  obtain hviews | ⟨fd', hturn, hoff⟩ := h.views hs
  · exact hviews fd ▸ hs.views fd
  · obtain rfl | hne := eq_or_ne fd fd'
    · exact hturn.sane (hs.views fd)
    · exact hoff fd hne ▸ hs.views fd

/-- **No step of a run fails an assertion.** -/
theorem Sane.exec_ok {cfg : Config} {o : Op ι} (h : Sane s) (hl : Legal cfg s o) :
    ∃ s', exec cfg s o = .ok s' := by
  cases o with
  | accept fd =>
    show ∃ s', s.accept cfg fd = .ok s'
    rw [State.accept, assert_true hl.1, if_neg hl.1.le.not_gt]
    split <;> exact ⟨_, rfl⟩
  | deliver fd events extend =>
    obtain ⟨-, mask, harmed, -⟩ := hl
    have hpresent : (s.view fd).interest ≠ .absent := by
      intro habsent
      cases harmed.symm.trans habsent
    obtain ⟨slot, hslot⟩ := (h.views fd).known hpresent
    show ∃ s', s.deliver fd events extend = .ok s'
    rw [State.deliver, show s.users fd = some slot from hslot]
    dsimp only
    split_ifs <;> exact ⟨_, rfl⟩
  | tick | expire | work => exact ⟨_, rfl⟩
  | take i =>
    rw [exec]
    split <;> exact ⟨_, rfl⟩

theorem Reach.sane {cfg : Config} (h : (machine ι cfg).Reach s) : Sane s := by
  refine Machine.Reach.invariant h ?_ fun s o s' hs hl he => (exec_does hl he).sane hs
  rintro s rfl
  refine ⟨fun fd => ⟨nofun, ?_, fun hknown => absurd rfl hknown, nofun⟩, nofun⟩
  rintro task (ht | ⟨i, hi⟩)
  · cases ht
  · cases hi

end Dispatch

end Server

end WebServer
