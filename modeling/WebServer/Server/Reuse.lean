import WebServer.Server.Owners

/-!
# Server/Reuse — a task and the next client on its descriptor

A task holds a pointer to a slot of `_users`, and a timer may close the slot and its descriptor
while the task waits or runs.  The descriptor can then be accepted again into the same slot.
`Fresh` says that a run does not do that, and it is all that a task needs to act on its own client
only.
-/

namespace WebServer

namespace Server

open Epoller

namespace Dispatch

variable {ι : Type} {cfg : Config} {s s' : State ι} {o : Op ι} {fd : ℤ} {v : View ι} {task : Task}

/-- What a task has done, it has done to the client whose event made it. -/
def Loyal (s : State ι) : Prop := ∀ e ∈ s.log, e.on = some e.task.client

/-- No client is accepted on a descriptor that a task is on. -/
def Fresh (s : State ι) : Op ι → Prop
  | .accept fd => s.userCount < MAX_FD → (s.view fd).Vacant
  | _ => True

/-! ## The numbers of the clients -/

theorem closeConn_clients (s : State ι) (fd : ℤ) : (s.closeConn fd).clients = s.clients := by
  rw [State.closeConn]
  split
  · rfl
  · rfl

variable [DecidableEq ι]

/-- A client that is accepted gets the next number, and the tasks stay where they are. -/
theorem Does.accept (h : Does cfg s (.accept fd) s') (hroom : s.userCount < MAX_FD) :
    s'.clients = s.clients + 1 ∧ s'.clientAt fd = some s.clients ∧
      ∀ task, (s'.view fd).Has task ↔ (s.view fd).Has task := by
  cases h with
  | refused hfull => exact absurd hroom hfull.not_gt
  | accepted =>
    refine ⟨rfl, ?_, fun task => Iff.rfl⟩
    simp only [State.clientAt, Function.update_self]
    rfl

theorem Does.clients (h : Does cfg s o s') : s.clients ≤ s'.clients := by
  cases h with
  | accepted => exact Nat.le_succ _
  | @hungUp fd => exact (closeConn_clients (s.report fd) fd).ge
  | @expired fd => exact (closeConn_clients s fd).ge
  | @closed i _ task => exact (closeConn_clients ((s.record task .closeConn).goto i none) _).ge
  | refused | dealt | passed | taken | touched | rearmed => exact le_rfl

/-! ## The invariant -/

/-- **The invariant.** -/
structure Faithful (s : State ι) : Prop where
  sane : Sane s
  current : ∀ fd, (s.view fd).Current
  numbers : ∀ fd n, s.clientAt fd = some n → n < s.clients
  loyal : Loyal s

/-- A task that is current does to its own client what it does. -/
theorem Course.loyal {w : Workload ι} (h : Course s w) (hcurrent : ∀ fd, (s.view fd).Current)
    (hs : Loyal s) : ∀ e ∈ w.log, e.on = some e.task.client := by
  have hsnoc : ∀ {i : ι} {task : Task} {pc : Pc} (deed : Deed), s.worker i = some (task, pc) →
      ∀ e ∈ s.log ++ [⟨task, deed, s.clientAt task.fd⟩], e.on = some e.task.client := by
    intro i task pc deed hi e he
    obtain he | he := List.mem_append.mp he
    · exact hs e he
    · rw [List.mem_singleton.mp he]
      refine hcurrent task.fd task (.inr ⟨i, ?_⟩)
      exact taskOn_eq_some_iff.mpr ⟨rfl, pc, hi⟩
  cases h with
  | unchanged | added | taken => exact hs
  | touched hi => exact hsnoc .touch hi
  | ended hi => exact hsnoc _ hi

namespace Faithful

theorem step (h : Faithful s) (hfresh : Fresh s o) (hdoes : Does cfg s o s') : Faithful s' := by
  have hle := hdoes.clients
  have hloyal := hdoes.course.loyal h.current h.loyal
  obtain hviews | ⟨fd, hturn, hrest⟩ := hdoes.views h.sane
  · refine ⟨hdoes.sane h.sane, fun fd => hviews fd ▸ h.current fd, fun fd n hn => ?_, hloyal⟩
    have hold : (s.view fd).client = some n := hviews fd ▸ hn
    exact (h.numbers fd n hold).trans_le hle
  · have hcurrent : (s'.view fd).Current := by
      refine hturn.current (h.current fd) fun ho _ hroom => ?_
      subst ho
      exact hfresh hroom
    refine ⟨hdoes.sane h.sane, fun fd' => ?_, fun fd' n hn => ?_, hloyal⟩
    all_goals obtain rfl | hne := eq_or_ne fd' fd
    · exact hcurrent
    · exact hrest fd' hne ▸ h.current fd'
    · obtain hclient | ⟨rfl, -, hroom⟩ := hturn.client
      · exact (h.numbers fd' n (hclient.symm.trans hn)).trans_le hle
      · obtain ⟨hclients, hat, -⟩ := hdoes.accept hroom
        rw [hclients, ← Option.some.inj (hat.symm.trans hn)]
        exact Nat.lt_succ_self _
    · have hold : (s.view fd').client = some n := hrest fd' hne ▸ hn
      exact (h.numbers fd' n hold).trans_le hle

theorem new : Faithful (.new : State ι) := by
  refine ⟨Reach.sane (.init (M := machine ι ⟨0, 0, 0⟩) rfl), fun fd task ht => ?_, nofun, nofun⟩
  exact absurd ht (View.Vacant.not_has ⟨rfl, fun _ => rfl⟩)

end Faithful

theorem Reach.faithful (h : ((machine ι cfg).restrict Fresh).Reach s) : Faithful s := by
  refine h.invariant ?_ fun s o s' hs hl he => hs.step hl.2 (exec_does hl.1 he)
  rintro s rfl
  exact .new

/-! ## The runs -/

/-- **A task acts on its own client as long as no client is accepted on a descriptor that a task is
on**: every `read`, `write`, `process`, `modFd` and `_closeConn` of a task meets the client whose
event made it, and a task that waits or runs has that client in its slot.  Where a client is
accepted on a descriptor that a task is on, the task is left with another client in its slot. -/
theorem tasks_loyal (h : ((machine ι cfg).restrict Fresh).Reach s) :
    (∀ e ∈ s.log, e.on = some e.task.client) ∧
    (∀ fd task, (s.view fd).Has task → s.clientAt fd = some task.client) ∧
    ∀ o s', Legal cfg s o → exec cfg s o = .ok s' → ¬ Fresh s o →
      ∃ fd task, (s'.view fd).Has task ∧ s'.clientAt fd ≠ some task.client := by
  have hs := Reach.faithful h
  refine ⟨hs.loyal, fun fd => hs.current fd, fun o s' hl he hstale => ?_⟩
  cases o with
  | accept fd =>
    obtain ⟨hroom, hvacant⟩ := Classical.not_imp.mp hstale
    obtain ⟨-, hat, hhas⟩ := (exec_does hl he).accept hroom
    have htask : ∃ task, (s.view fd).Has task := by
      by_contra hnone
      rw [not_exists] at hnone
      refine hvacant ⟨List.eq_nil_iff_forall_not_mem.mpr fun task ht => hnone task (.inl ht), ?_⟩
      exact fun i => Option.eq_none_iff_forall_ne_some.mpr fun task hi => hnone task (.inr ⟨i, hi⟩)
    obtain ⟨task, ht⟩ := htask
    refine ⟨fd, task, (hhas task).mpr ht, fun hclient => ?_⟩
    have hlt := hs.numbers fd task.client (hs.current fd task ht)
    rw [← Option.some.inj (hat.symm.trans hclient)] at hlt
    exact lt_irrefl _ hlt
  | deliver | tick | expire | take | work => exact absurd trivial hstale

/-- With the timer on, a worker reads from a client. -/
theorem tasks_loyal_read : ∃ s : State (Fin 1),
    s.log = [⟨⟨0, .onRead, 5, 0⟩, .touch, some 0⟩] ∧ ∀ e ∈ s.log, e.on = some e.task.client := by
  set cfg : Config := { listenFd := 3, timeoutMs := 60000, triggerMode := 3 } with hcfg
  have h₀ : ((machine (Fin 1) cfg).restrict Fresh).Reach _ := .init rfl
  have h₁ : ((machine (Fin 1) cfg).restrict Fresh).Reach _ :=
    .step (o := .accept 5) h₀ ⟨⟨by decide, by decide, rfl⟩, fun _ => ⟨rfl, fun _ => rfl⟩⟩ rfl
  have h₂ : ((machine (Fin 1) cfg).restrict Fresh).Reach _ :=
    .step (o := .deliver 5 EPOLLIN 0) h₁ ⟨⟨by decide, _, rfl, by decide⟩, trivial⟩ rfl
  have h₃ : ((machine (Fin 1) cfg).restrict Fresh).Reach _ :=
    .step (o := .take 0) h₂ ⟨⟨rfl, List.cons_ne_nil _ _⟩, trivial⟩ rfl
  have h₄ : ((machine (Fin 1) cfg).restrict Fresh).Reach _ :=
    .step (o := .work 0 ⟨100, 0, 0, true, true⟩) h₃ ⟨Option.some_ne_none _, trivial⟩ rfl
  exact ⟨_, rfl, (tasks_loyal h₄).1⟩

/-- The timer closes a connection whose task waits, its descriptor is accepted again, and the task
reads from the second client. -/
theorem not_loyal_reaccepted : ∃ cfg : Config, 0 < cfg.timeoutMs ∧ ∃ s : State (Fin 1),
    (machine (Fin 1) cfg).Reach s ∧ s.log = [⟨⟨0, .onRead, 5, 0⟩, .touch, some 1⟩] ∧
      ¬ ∀ e ∈ s.log, e.on = some e.task.client := by
  refine ⟨{ listenFd := 3, timeoutMs := 60000, triggerMode := 3 }, by decide, ?_⟩
  set cfg : Config := { listenFd := 3, timeoutMs := 60000, triggerMode := 3 } with hcfg
  have h₀ : (machine (Fin 1) cfg).Reach _ := .init rfl
  have h₁ : (machine (Fin 1) cfg).Reach _ :=
    .step (o := .accept 5) h₀ ⟨by decide, by decide, rfl⟩ rfl
  have h₂ : (machine (Fin 1) cfg).Reach _ :=
    .step (o := .deliver 5 EPOLLIN 0) h₁ ⟨by decide, _, rfl, by decide⟩ rfl
  have h₃ : (machine (Fin 1) cfg).Reach _ :=
    .step (o := .tick 60000000000) h₂ trivial rfl
  have h₄ : (machine (Fin 1) cfg).Reach _ :=
    .step (o := .expire 5) h₃ ⟨by decide, 60000000000, rfl, by decide⟩ rfl
  have h₅ : (machine (Fin 1) cfg).Reach _ :=
    .step (o := .accept 5) h₄ ⟨by decide, by decide, rfl⟩ rfl
  have h₆ : (machine (Fin 1) cfg).Reach _ :=
    .step (o := .take 0) h₅ ⟨rfl, List.cons_ne_nil _ _⟩ rfl
  have h₇ : (machine (Fin 1) cfg).Reach _ :=
    .step (o := .work 0 ⟨100, 0, 0, true, true⟩) h₆ (Option.some_ne_none _) rfl
  refine ⟨_, h₇, rfl, fun hall => ?_⟩
  exact absurd (hall _ List.mem_cons_self) (by decide)

end Dispatch

end Server

end WebServer
