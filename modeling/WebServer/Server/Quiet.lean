import WebServer.Machinery.Settling
import WebServer.Server.Owners

/-!
# Server/Quiet — no client is forgotten

A task is worth the calls that it may still make: every step of a worker lowers `State.effort`.  So
a server that hears nothing from its clients rests before long, and then every open connection is
armed: what is not has a task, which ends by arming or by closing it (`View.Tended`).

All this is about a server without idle timers.  One that has them gets no further than the first
`getNextTick`, which throws on every timer that is reached (`Timer/Expiry`).
-/

namespace WebServer

namespace Server

open Epoller

namespace Dispatch

variable {ι : Type} {cfg : Config} {s s' : State ι} {o : Op ι} {fd fd' : ℤ} {i : ι} {pc : Pc}
  {task : Task} {v : View ι} {mask : UInt32}

/-! ## What a connection is armed for -/

/-- The masks that `_addClient`, `_onProcess` and `_onWrite` arm a connection with. -/
def Config.Awaits (cfg : Config) (mask : UInt32) : Prop :=
  mask = cfg.connEvent ||| EPOLLIN ∨ mask = cfg.connEvent ||| EPOLLOUT

/-- A task re-arms its connection to be read or written. -/
theorem next_awaits {out : Outcome} {kind : Kind} (hpc : 1 < pc.left)
    (h : pc.next cfg.connEvent out kind = .rearm mask) : cfg.Awaits mask := by
  cases pc with
  | io =>
    cases kind
    · simp only [Pc.next, afterRead] at h
      split_ifs at h
    · simp only [Pc.next, afterWrite] at h
      split_ifs at h
      exact .inr (Pc.rearm.inj h).symm
  | process =>
    simp only [Pc.next, afterProcess] at h
    split_ifs at h
    · exact .inr (Pc.rearm.inj h).symm
    · exact .inl (Pc.rearm.inj h).symm
  | rearm | close => exact absurd hpc (lt_irrefl 1)

/-- What is armed, and what is about to be, is armed to be read or written. -/
structure Awaiting (cfg : Config) (s : State ι) : Prop where
  interest : ∀ fd mask, s.interest fd = .armed mask → cfg.Awaits mask
  rearm : ∀ i task mask, s.worker i = some (task, .rearm mask) → cfg.Awaits mask

theorem report_armed (h : (s.report fd).interest fd' = .armed mask) :
    s.interest fd' = .armed mask := by
  obtain rfl | hne := eq_or_ne fd' fd
  · have hreport : (s.interest fd').report = .armed mask := (Function.update_self ..).symm.trans h
    cases hinterest : s.interest fd' with
    | absent | disarmed =>
      rw [hinterest] at hreport
      cases hreport
    | armed events =>
      rw [hinterest, Interest.report] at hreport
      split at hreport
      · cases hreport
      · exact hreport
  · exact (congrArg View.interest (report_view_of_ne hne)).symm.trans h

theorem closeConn_armed (hpos : ∀ slot, s.users fd = some slot → 0 < fd)
    (h : (s.closeConn fd).interest fd' = .armed mask) : s.interest fd' = .armed mask := by
  obtain rfl | hne := eq_or_ne fd' fd
  · cases hslot : s.users fd' with
    | none => rwa [State.closeConn, hslot] at h
    | some slot =>
      have habsent := congrArg View.interest (closeConn_view_self hslot (hpos slot hslot))
      cases h.symm.trans habsent
  · exact (congrArg View.interest (closeConn_view_of_ne hne)).symm.trans h

theorem closeConn_worker (s : State ι) (fd : ℤ) : (s.closeConn fd).worker = s.worker :=
  congrArg Workload.worker closeConn_workload

variable [DecidableEq ι]

theorem Awaiting.step (h : Awaiting cfg s) (hs : Sane s) (hdoes : Does cfg s o s') :
    Awaiting cfg s' := by
  have hpos : ∀ fd slot, s.users fd = some slot → 0 < fd := fun fd => (hs.views fd).pos
  have hgoto : ∀ {i : ι} {place : Option (Task × Pc)},
      (∀ task mask, place = some (task, .rearm mask) → cfg.Awaits mask) →
      ∀ j task mask, (s.goto i place).worker j = some (task, .rearm mask) → cfg.Awaits mask :=
    fun hplace j => Threads.update_forall (Q := fun place : Option (Task × Pc) => ∀ task mask,
      place = some (task, .rearm mask) → cfg.Awaits mask) h.rearm hplace j
  cases hdoes with
  | refused | passed => exact ⟨h.interest, h.rearm⟩
  | @accepted fd =>
    refine ⟨fun fd' mask hmask => ?_, h.rearm⟩
    obtain rfl | hne := eq_or_ne fd' fd
    · have harmed : Interest.armed (EPOLLIN ||| cfg.connEvent) = .armed mask :=
        (Function.update_self ..).symm.trans hmask
      exact .inl ((Interest.armed.inj harmed).symm.trans (UInt32.or_comm _ _))
    · exact h.interest fd' mask ((Function.update_of_ne hne ..).symm.trans hmask)
  | @hungUp fd =>
    refine ⟨fun fd' mask hmask => ?_, (closeConn_worker (s.report fd) fd).symm ▸ h.rearm⟩
    exact h.interest fd' mask (report_armed (closeConn_armed (hpos fd) hmask))
  | dealt => exact ⟨fun fd' mask hmask => h.interest fd' mask (report_armed hmask), h.rearm⟩
  | @expired fd =>
    refine ⟨fun fd' mask hmask => ?_, (closeConn_worker s fd).symm ▸ h.rearm⟩
    exact h.interest fd' mask (closeConn_armed (hpos fd) hmask)
  | taken => exact ⟨h.interest, hgoto nofun⟩
  | touched _ hpc =>
    refine ⟨h.interest, hgoto fun task mask hplace => ?_⟩
    exact next_awaits hpc (Prod.mk.inj (Option.some.inj hplace)).2
  | @rearmed i _ task mask hi =>
    refine ⟨fun fd' mask' hmask => ?_, hgoto nofun⟩
    obtain rfl | hne := eq_or_ne fd' task.fd
    · have hon : (s.view task.fd).Has task :=
        .inr ⟨i, by simp only [State.view, Function.comp_apply, hi, taskOn_self]⟩
      obtain ⟨slot, hslot⟩ := (hs.views task.fd).slot task hon
      have harmed := (perform_modFd_self (hpos _ slot hslot) mask).symm.trans hmask
      cases hinterest : s.interest task.fd with
      | absent =>
        rw [hinterest] at harmed
        cases harmed
      | disarmed | armed =>
        rw [hinterest] at harmed
        exact Interest.armed.inj harmed ▸ h.rearm i task mask hi
    · exact h.interest fd' mask' ((perform_of_ne fd_of_mem_modFd hne).symm.trans hmask)
  | @closed i _ task =>
    refine ⟨fun fd' mask hmask => ?_,
      (closeConn_worker ((s.record task .closeConn).goto i none) task.fd).symm ▸ hgoto nofun⟩
    have harmed : ((s.record task .closeConn).goto i none).interest fd' = .armed mask :=
      closeConn_armed (hpos task.fd) hmask
    exact h.interest fd' mask harmed

/-! ## A connection that is not armed has a task -/

/-- A closed connection is not in the epoll instance; an open one is armed, or has a task. -/
structure View.Tended (v : View ι) : Prop where
  closed : v.isOpen = false → v.interest = .absent
  opened : v.isOpen = true → v.interest.isArmed = true ∨ v.interest = .disarmed ∧ ∃ task, v.Has task

omit [DecidableEq ι] in
theorem View.Tended.of_closed {slot : Slot} : (v.close slot).Tended :=
  ⟨fun _ => rfl, fun hopen => absurd hopen Bool.false_ne_true⟩

/-- The calls that a worker may still make. -/
def calls (place : Option (Task × Pc)) : ℕ := place.elim 0 fun p => p.2.left

/-- What an operation of the clients or of the clock may add. -/
def cost : Op ι → ℕ
  | .accept _ => 1
  | .deliver _ _ _ => 5
  | .tick _ => 1
  | _ => 0

/-- What a step makes of the work that is left. -/
def Op.Spends : Op ι → ℕ → ℕ → Prop
  | .take _, effort, effort' | .work _ _, effort, effort' => effort' < effort
  | .deliver _ _ _, effort, effort' => effort' ≤ effort + 4
  | _, effort, effort' => effort' = effort

variable [Fintype ι]

/-- The steps that may still come. -/
def State.effort (s : State ι) : ℕ := 4 * s.queue.length + ∑ i, calls (s.worker i)

theorem effort_goto (s : State ι) (i : ι) (place : Option (Task × Pc)) :
    (s.goto i place).effort + calls (s.worker i) = s.effort + calls place := by
  have hsum := Threads.sum_update s.worker i place calls
  simp only [State.effort, State.goto]
  omega

omit [DecidableEq ι] in
theorem closeConn_effort (s : State ι) (fd : ℤ) : (s.closeConn fd).effort = s.effort :=
  congrArg (fun w : Workload ι => 4 * w.queue.length + ∑ i, calls (w.worker i)) closeConn_workload

/-- A worker whose task ends. -/
theorem effort_leave (h : s.worker i = some (task, pc)) (hpc : pc.left = 1) :
    (s.goto i none).effort < s.effort := by
  have hgoto := effort_goto s i none
  rw [h] at hgoto
  change _ + pc.left = _ + 0 at hgoto
  omega

/-- **A worker that goes on is nearer to the end of the tasks.** -/
theorem Does.effort (h : Does cfg s o s') : o.Spends s.effort s'.effort := by
  cases h with
  | refused | accepted | passed => rfl
  | hungUp => exact (closeConn_effort _ _).trans_le (Nat.le_add_right _ _)
  | dealt =>
    refine le_of_eq ?_
    simp only [State.effort, State.addTask, State.extendTime, State.report, List.length_append,
      List.length_singleton]
    omega
  | expired => exact closeConn_effort _ _
  | @taken i task rest hq hi =>
    have hgoto := effort_goto s i (some (task, .io))
    rw [hi] at hgoto
    change 4 * s.queue.length + ∑ j, calls ((s.goto i (some (task, .io))).worker j) + 0 = _ + 3
      at hgoto
    rw [hq, List.length_cons] at hgoto
    show 4 * rest.length + ∑ j, calls ((s.goto i (some (task, .io))).worker j) < s.effort
    omega
  | @touched i out task pc hi hpc =>
    have hgoto := effort_goto s i (some (task, pc.next cfg.connEvent out task.kind))
    have hleft := next_left cfg.connEvent out task.kind hpc
    rw [hi] at hgoto
    change _ + pc.left = _ + (pc.next cfg.connEvent out task.kind).left at hgoto
    show (s.goto i _).effort < s.effort
    omega
  | rearmed hi => exact effort_leave hi rfl
  | closed hi => exact (closeConn_effort _ _).trans_lt (effort_leave hi rfl)

/-- **Every step is paid for.** -/
theorem effort_step (hoff : cfg.timeoutMs ≤ 0) (hl : Legal cfg s o) (he : exec cfg s o = .ok s') :
    s'.effort < s.effort + cost o := by
  have heffort := (exec_does hl he).effort
  cases o with
  | accept fd | tick elapsed =>
    rw [show s'.effort = s.effort from heffort]
    exact Nat.lt_succ_self _
  | deliver fd events extend =>
    have hle : s'.effort ≤ s.effort + 4 := heffort
    exact Nat.lt_succ_of_le hle
  | expire fd => exact absurd hl.1 (not_lt.mpr hoff)
  | take i | work i out => exact heffort

/-! ## The runs -/

theorem settles (hoff : cfg.timeoutMs ≤ 0) :
    (machine ι cfg).Settles (machine ι cfg).Reach State.effort cost where
  step s o hs hl := by
    obtain ⟨s', he⟩ := (Reach.sane hs).exec_ok hl
    exact ⟨s', he, hs.step hl he, effort_step hoff hl he⟩

end Dispatch

end Server

end WebServer
