import WebServer.Server.Views

/-!
# Server/Owners — with idle timers off, an open connection has one owner

A connection is with the epoll instance, which may report an event on it, or with a task that waits
or runs: `View.owners` counts them.  A descriptor that is open has one owner and one that is closed
has none (`View.Sound`), so no task is left on a descriptor when a client is accepted on it, and a
task is always on the client whose event made it (`View.Current`).
-/

namespace WebServer

namespace Epoller

def Interest.isArmed : Interest → Bool
  | .armed _ => true
  | _ => false

theorem Interest.armed_ne_absent {events : UInt32} : Interest.armed events ≠ .absent := by
  intro h
  cases h

theorem Interest.disarmed_ne_absent : Interest.disarmed ≠ .absent := by
  intro h
  cases h

end Epoller

namespace Server

open Epoller

namespace Dispatch

variable {ι : Type} {cfg : Config} {s s' : State ι} {o : Op ι} {fd : ℤ} {v : View ι} {task : Task}

/-! ## Whom the tasks are for -/

/-- The tasks on a descriptor are for the client in its slot. -/
def View.Current (v : View ι) : Prop := ∀ task, v.Has task → v.client = some task.client

theorem View.Vacant.not_has (h : v.Vacant) : ¬ v.Has task := by
  rintro (ht | ⟨i, hi⟩)
  · rw [h.1] at ht
    cases ht
  · rw [h.2 i] at hi
    cases hi

/-- **Tasks stay current** while no client is accepted on a descriptor that has any. -/
theorem Turn.current [DecidableEq ι] (h : Turn cfg s o fd v) (hs : (s.view fd).Current)
    (hvacant : o = .accept fd → (s.view fd).isOpen = false → s.userCount < MAX_FD →
      (s.view fd).Vacant) : v.Current := by
  intro task ht
  obtain ht | ht := h.has ht
  · obtain hclient | ⟨ho, hclosed, hroom⟩ := h.client
    · exact hclient.trans (hs task ht)
    · exact absurd ht (hvacant ho hclosed hroom).not_has
  · exact ht

/-! ## The owners of a connection -/

variable [Fintype ι]

/-- The owners of a connection: the epoll instance, and the tasks that wait or run. -/
def View.owners (v : View ι) : ℕ :=
  v.interest.isArmed.toNat + v.queued.length + Threads.count v.running Option.isSome

/-- **An open connection has one owner, a closed one has none.** -/
structure View.Sound (v : View ι) : Prop where
  owners : v.owners = v.isOpen.toNat
  present : v.isOpen = true → v.interest ≠ .absent

/-- A closed connection that nobody owns. -/
theorem View.Sound.of_closed {slot : Slot} (howners : (v.close slot).owners = 0) :
    (v.close slot).Sound :=
  ⟨howners, fun hopen => absurd hopen Bool.false_ne_true⟩

/-- An open connection with one owner, which the epoll instance knows. -/
theorem View.Sound.of_open (hopen : v.isOpen = true) (hpresent : v.interest ≠ .absent)
    (howners : v.owners = 1) : v.Sound :=
  ⟨hopen ▸ howners, fun _ => hpresent⟩

theorem View.Sound.vacant (h : v.Sound) (hclosed : v.isOpen = false) : v.Vacant := by
  have howners := h.owners
  rw [hclosed, Bool.toNat_false, View.owners] at howners
  have hrunning : Threads.count v.running Option.isSome = 0 := by omega
  refine ⟨List.length_eq_zero_iff.mp (by omega), fun i => ?_⟩
  exact Option.not_isSome_iff_eq_none.mp
    (ne_true_of_eq_false (Threads.count_eq_zero_iff.mp hrunning i))

/-- A connection that has an owner is open, and has no other. -/
theorem View.Sound.of_pos (h : v.Sound) (hpos : 0 < v.owners) : v.isOpen = true ∧ v.owners = 1 := by
  have howners := h.owners
  cases hopen : v.isOpen
  · rw [hopen] at howners
    exact absurd howners hpos.ne'
  · rw [hopen] at howners
    exact ⟨rfl, howners⟩

/-- An armed connection is open, and no task is on it. -/
theorem View.Sound.of_armed (h : v.Sound) {mask : UInt32} (harmed : v.interest = .armed mask) :
    v.isOpen = true ∧ v.queued = [] ∧ Threads.count v.running Option.isSome = 0 := by
  have howners : v.owners
      = 1 + v.queued.length + Threads.count v.running Option.isSome := by
    rw [View.owners, harmed]
    rfl
  obtain ⟨hopen, hone⟩ := h.of_pos (by omega)
  exact ⟨hopen, List.length_eq_zero_iff.mp (by omega), by omega⟩

/-- A connection with a worker is open, and no other task is on it. -/
theorem View.Sound.of_running [DecidableEq ι] (h : v.Sound) {i : ι}
    (hi : v.running i = some task) : v.isOpen = true ∧ v.queued = [] ∧
      Threads.count (Function.update v.running i none) Option.isSome = 0 := by
  have hcount := Threads.count_update v.running i none Option.isSome
  rw [hi] at hcount
  change _ + 1 = _ + 0 at hcount
  have howners : v.owners = v.interest.isArmed.toNat + v.queued.length
      + Threads.count v.running Option.isSome := rfl
  obtain ⟨hopen, hone⟩ := h.of_pos (by omega)
  exact ⟨hopen, List.length_eq_zero_iff.mp (by omega), by omega⟩

variable [DecidableEq ι]

/-- **Every step keeps it**, as long as no timer fires. -/
theorem Turn.sound (h : Turn cfg s o fd v) (hoff : cfg.timeoutMs ≤ 0)
    (hsane : (s.view fd).Sane fd) (hs : (s.view fd).Sound) : v.Sound := by
  cases h with
  | accepted _ _ hclosed _ =>
    obtain ⟨hqueued, hrunning⟩ := hs.vacant hclosed
    have hcount : Threads.count (s.view fd).running Option.isSome = 0 :=
      Threads.count_eq_zero_iff.mpr fun i => by rw [hrunning i]; rfl
    refine .of_open rfl Interest.armed_ne_absent ?_
    show 1 + (s.view fd).queued.length + Threads.count (s.view fd).running Option.isSome = 1
    rw [hqueued, hcount]
    rfl
  | hungUp hslot harmed =>
    obtain ⟨-, hqueued, hcount⟩ := hs.of_armed harmed
    refine .of_closed ?_
    show 0 + (s.view fd).queued.length + Threads.count (s.view fd).running Option.isSome = 0
    rw [hqueued, hcount]
    rfl
  | @queued _ _ task hslot harmed _ =>
    obtain ⟨hopen, hqueued, hcount⟩ := hs.of_armed harmed
    rw [Interest.report, if_pos (hsane.oneshot _ harmed)]
    refine .of_open hopen Interest.disarmed_ne_absent ?_
    show 0 + ((s.view fd).queued ++ [task]).length
      + Threads.count (s.view fd).running Option.isSome = 1
    rw [hqueued, hcount]
    rfl
  | expired hon _ => exact absurd hon hoff.not_gt
  | @taken i task rest hq hi =>
    have hcount := Threads.count_update (s.view fd).running i (some task) Option.isSome
    rw [hi] at hcount
    change _ + 0 = _ + 1 at hcount
    refine ⟨Eq.trans ?_ hs.owners, hs.present⟩
    rw [View.owners, View.owners, hq]
    show (s.view fd).interest.isArmed.toNat + rest.length
        + Threads.count (Function.update (s.view fd).running i (some task)) Option.isSome
      = (s.view fd).interest.isArmed.toNat + (rest.length + 1)
        + Threads.count (s.view fd).running Option.isSome
    omega
  | @rearmed i task mask hi _ =>
    obtain ⟨hopen, hqueued, hcount⟩ := hs.of_running hi
    have hon : (Act.epollMod fd mask).on (s.view fd).interest = .armed mask := by
      cases hinterest : (s.view fd).interest with
      | absent => exact absurd hinterest (hs.present hopen)
      | disarmed | armed => rfl
    rw [hon]
    refine .of_open hopen Interest.armed_ne_absent ?_
    show 1 + (s.view fd).queued.length
      + Threads.count (Function.update (s.view fd).running i none) Option.isSome = 1
    rw [hqueued, hcount]
    rfl
  | closed hslot hi =>
    obtain ⟨-, hqueued, hcount⟩ := hs.of_running hi
    refine .of_closed ?_
    show 0 + (s.view fd).queued.length + Threads.count (Function.update _ _ none) _ = 0
    rw [hqueued, hcount]
    rfl

/-! ## The runs -/

/-- Every view is sound and current. -/
structure Owned (s : State ι) : Prop where
  sound : ∀ fd, (s.view fd).Sound
  current : ∀ fd, (s.view fd).Current

theorem Owned.step (h : Owned s) (hoff : cfg.timeoutMs ≤ 0) (hs : Sane s)
    (hdoes : Does cfg s o s') : Owned s' := by
  obtain hviews | ⟨fd, hturn, hrest⟩ := hdoes.views hs
  · exact ⟨fun fd => hviews fd ▸ h.sound fd, fun fd => hviews fd ▸ h.current fd⟩
  · have hsound := hturn.sound hoff (hs.views fd) (h.sound fd)
    have hcurrent := hturn.current (h.current fd) fun _ hclosed _ => (h.sound fd).vacant hclosed
    refine ⟨fun fd' => ?_, fun fd' => ?_⟩
    all_goals obtain rfl | hne := eq_or_ne fd' fd
    · exact hsound
    · exact hrest fd' hne ▸ h.sound fd'
    · exact hcurrent
    · exact hrest fd' hne ▸ h.current fd'

theorem Reach.owned (hoff : cfg.timeoutMs ≤ 0) (h : (machine ι cfg).Reach s) : Owned s := by
  have hboth : Sane s ∧ Owned s := by
    refine h.invariant (I := fun s => Sane s ∧ Owned s) ?_ ?_
    · intro s hs
      refine ⟨Reach.sane (.init hs), ?_⟩
      obtain rfl := hs
      have hcount : Threads.count (fun _ : ι => (none : Option Task)) Option.isSome = 0 :=
        Threads.count_eq_zero_iff.mpr fun _ => rfl
      refine ⟨fun fd => ⟨?_, fun hopen => absurd hopen Bool.false_ne_true⟩, fun fd task ht => ?_⟩
      · exact (Nat.zero_add _).trans hcount
      · exact absurd ht (View.Vacant.not_has ⟨rfl, fun _ => rfl⟩)
    · intro s o s' hs hl he
      have hdoes := exec_does hl he
      exact ⟨hdoes.sane hs.1, hs.2.step hoff hs.1 hdoes⟩
  exact hboth.2

/-- **With idle timers off, an open connection has one owner.**  No step of a run fails.  An open
connection is armed in the epoll instance, or has one task, which waits or runs, and a closed one
has none of these.  A task on a descriptor is for the client in its slot.  A task that was added
waits or runs and has only called `read`, `write` and `process`, or it has ended with its one
`modFd` or `_closeConn` and done nothing since. -/
theorem one_owner (hoff : cfg.timeoutMs ≤ 0) (h : (machine ι cfg).Reach s) :
    (∀ o, Legal cfg s o → ∃ s', exec cfg s o = .ok s') ∧
    (∀ fd, s.isOpen fd = true → (s.view fd).owners = 1) ∧
    (∀ fd, s.isOpen fd = false → (s.view fd).owners = 0) ∧
    (∀ fd task, (s.view fd).Has task → s.isOpen fd = true ∧ s.clientAt fd = some task.client) ∧
    ∀ n < s.tasks, ∃ k ≤ 2,
      s.workload.times n = 1 ∧ s.workload.deeds n = List.replicate k .touch ∨
      s.workload.times n = 0 ∧ ∃ deed ≠ .touch,
        s.workload.deeds n = List.replicate k .touch ++ [deed] := by
  have howned := Reach.owned hoff h
  refine ⟨fun o hl => (Reach.sane h).exec_ok hl, fun fd hopen => ?_, fun fd hclosed => ?_,
    fun fd task ht => ⟨?_, howned.current fd task ht⟩, fun n hn => ?_⟩
  · exact (howned.sound fd).owners.trans (congrArg Bool.toNat hopen)
  · exact (howned.sound fd).owners.trans (congrArg Bool.toNat hclosed)
  · by_contra hclosed
    exact ((howned.sound fd).vacant (Bool.not_eq_true _ ▸ hclosed)).not_has ht
  · cases Reach.account h n with
    | unborn hle => exact absurd hn hle.not_gt
    | waiting _ ht _ hdeeds => exact ⟨0, Nat.zero_le 2, .inl ⟨ht, hdeeds⟩⟩
    | @running i task pc k _ ht _ _ hdeeds hleft =>
      have hpos := pc.left_pos
      exact ⟨k, by omega, .inl ⟨ht, hdeeds⟩⟩
    | ended _ ht hdeeds hdeed hk => exact ⟨_, hk, .inr ⟨ht, _, hdeed, hdeeds⟩⟩

/-- A worker has read from the first client; the second is armed. -/
theorem one_owner_reading : ∃ s : State (Fin 2), s.isOpen 5 = true ∧ s.isOpen 6 = true ∧
    s.worker 0 = some (⟨0, .onRead, 5, 0⟩, .process) ∧ (s.view 5).owners = 1 ∧
    (s.view 6).owners = 1 := by
  set cfg : Config := { listenFd := 3, timeoutMs := 0, triggerMode := 3 } with hcfg
  have h₀ : (machine (Fin 2) cfg).Reach _ := .init rfl
  have h₁ : (machine (Fin 2) cfg).Reach _ :=
    .step (o := .accept 5) h₀ ⟨by decide, by decide, rfl⟩ rfl
  have h₂ : (machine (Fin 2) cfg).Reach _ :=
    .step (o := .accept 6) h₁ ⟨by decide, by decide, rfl⟩ rfl
  have h₃ : (machine (Fin 2) cfg).Reach _ :=
    .step (o := .deliver 5 EPOLLIN 0) h₂ ⟨by decide, _, rfl, by decide⟩ rfl
  have h₄ : (machine (Fin 2) cfg).Reach _ :=
    .step (o := .take 0) h₃ ⟨rfl, List.cons_ne_nil _ _⟩ rfl
  have h₅ : (machine (Fin 2) cfg).Reach _ :=
    .step (o := .work 0 ⟨100, 0, 0, true, true⟩) h₄ (Option.some_ne_none _) rfl
  have howned := one_owner (by decide) h₅
  exact ⟨_, rfl, rfl, rfl, howned.2.1 5 rfl, howned.2.1 6 rfl⟩

end Dispatch

end Server

end WebServer
