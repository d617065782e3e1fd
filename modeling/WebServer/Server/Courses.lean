import WebServer.Server.Steps

/-!
# Server/Courses — a step of the server, seen from its tasks

What concerns the tasks of a server is its `Workload`.  A step adds one, gives one to a worker, or
takes one a call further, and `Course` says all of it.  What follows for any run is
`Workload.Account`: a task waits, or has one worker, until it ends with its first `modFd` or
`_closeConn`, within three calls.
-/

namespace WebServer

namespace Server

open Epoller

namespace Dispatch

/-- The tasks of a server: those that wait, those that run, how many there were, and the log. -/
structure Workload (ι : Type) where
  queue : List Task
  worker : ι → Option (Task × Pc)
  tasks : ℕ
  log : List Entry

variable {ι : Type}

def State.workload (s : State ι) : Workload ι := ⟨s.queue, s.worker, s.tasks, s.log⟩

variable {s s' : State ι} {fd : ℤ} {i : ι} {task : Task} {pc : Pc}

/-! ## The account of a task -/

/-- The worker is at the task with number `n`. -/
def runs (n : ℕ) (place : Option (Task × Pc)) : Bool := place.any fun p => p.1.no == n

theorem runs_eq_true_iff {n : ℕ} {place : Option (Task × Pc)} :
    runs n place = true ↔ ∃ task pc, place = some (task, pc) ∧ task.no = n := by
  rcases place with _ | ⟨task, pc⟩
  · simp [runs]
  · simp [runs]

section Account

variable [Fintype ι]

/-- How often the task with number `n` waits or runs. -/
def Workload.times (w : Workload ι) (n : ℕ) : ℕ :=
  (w.queue.map Task.no).count n + Threads.count w.worker (runs n)

/-- What the task with number `n` has done. -/
def Workload.deeds (w : Workload ι) (n : ℕ) : List Deed :=
  (w.log.filter (·.task.no == n)).map Entry.deed

/-- **What is known of the task with number `n`.** -/
inductive Workload.Account (w : Workload ι) (n : ℕ) : Prop
  | unborn (hno : w.tasks ≤ n) (htimes : w.times n = 0) (hdeeds : w.deeds n = [])
  | waiting (hno : n < w.tasks) (htimes : w.times n = 1) (hwaits : n ∈ w.queue.map Task.no)
      (hdeeds : w.deeds n = [])
  | running {i : ι} {task : Task} {pc : Pc} {k : ℕ} (hno : n < w.tasks) (htimes : w.times n = 1)
      (hi : w.worker i = some (task, pc)) (htask : task.no = n)
      (hdeeds : w.deeds n = List.replicate k .touch) (hleft : k + pc.left ≤ 3)
  | ended {k : ℕ} {deed : Deed} (hno : n < w.tasks) (htimes : w.times n = 0)
      (hdeeds : w.deeds n = List.replicate k .touch ++ [deed]) (hdeed : deed ≠ .touch)
      (hk : k ≤ 2)

/-- A worker at a task is counted. -/
theorem Workload.count_pos {w : Workload ι} (hi : w.worker i = some (task, pc)) :
    0 < Threads.count w.worker (runs task.no) :=
  Threads.count_pos_iff.mpr ⟨i, runs_eq_true_iff.mpr ⟨task, pc, hi, rfl⟩⟩

/-- A task that has a worker does not wait, and has that worker only. -/
theorem Workload.alone {w : Workload ι} {n : ℕ} (htimes : w.times n = 1)
    (hi : w.worker i = some (task, pc)) (hno : task.no = n) :
    n ∉ w.queue.map Task.no ∧
      ∀ j task' pc', w.worker j = some (task', pc') → task'.no = n → j = i := by
  subst hno
  have hpos := w.count_pos hi
  rw [Workload.times] at htimes
  refine ⟨fun hmem => ?_, fun j task' pc' hj hno => ?_⟩
  · have hqueue := List.count_pos_iff.mpr hmem
    omega
  · have hone : Threads.count w.worker (runs task.no) = 1 := by omega
    obtain ⟨i', -, huniq⟩ := Threads.count_eq_one_iff.mp hone
    have hj' : runs task.no (w.worker j) = true := runs_eq_true_iff.mpr ⟨task', pc', hj, hno⟩
    have hi' : runs task.no (w.worker i) = true := runs_eq_true_iff.mpr ⟨task, pc, hi, rfl⟩
    exact (huniq j hj').trans (huniq i hi').symm

omit [Fintype ι] in
theorem deeds_snoc {w : Workload ι} (task : Task) (deed : Deed) (on : Option ℕ) (n : ℕ) :
    Workload.deeds { w with log := w.log ++ [⟨task, deed, on⟩] } n
      = w.deeds n ++ if task.no = n then [deed] else [] := by
  rw [Workload.deeds, List.filter_append, List.map_append]
  refine congrArg (_ ++ ·) ?_
  by_cases hno : task.no = n <;> simp [hno]

end Account

/-! ## All that a step can do -/

theorem closeConn_workload : (s.closeConn fd).workload = s.workload := by
  rw [State.closeConn]
  split
  · rfl
  · rfl

variable [DecidableEq ι]

/-- **What a step can do to the workload.** -/
inductive Course (s : State ι) : Workload ι → Prop
  | unchanged : Course s s.workload
  | added {task : Task} (hno : task.no = s.tasks) :
      Course s { s.workload with queue := s.queue ++ [task], tasks := s.tasks + 1 }
  | taken {i : ι} {task : Task} {rest : List Task} (hq : s.queue = task :: rest)
      (hi : s.worker i = none) :
      Course s { s.workload with
        queue := rest, worker := Function.update s.worker i (some (task, .io)) }
  | touched {i : ι} {task : Task} {pc pc' : Pc} (hi : s.worker i = some (task, pc))
      (hleft : pc'.left < pc.left)
      (honeshot : ∀ mask, pc' = .rearm mask → mask &&& EPOLLONESHOT ≠ 0) :
      Course s { s.workload with
        worker := Function.update s.worker i (some (task, pc'))
        log := s.log ++ [⟨task, .touch, s.clientAt task.fd⟩] }
  | ended {i : ι} {task : Task} {pc : Pc} {deed : Deed} (hi : s.worker i = some (task, pc))
      (hdeed : deed ≠ .touch) :
      Course s { s.workload with
        worker := Function.update s.worker i none
        log := s.log ++ [⟨task, deed, s.clientAt task.fd⟩] }

/-- **A step takes one task further at most.** -/
theorem Does.course {cfg : Config} {o : Op ι} (h : Does cfg s o s') : Course s s'.workload := by
  cases h with
  | refused | accepted | passed => exact .unchanged
  | @hungUp fd =>
    rw [closeConn_workload]
    exact .unchanged
  | dealt => exact .added rfl
  | @expired fd =>
    show Course s (s.closeConn fd).workload
    rw [closeConn_workload]
    exact .unchanged
  | taken hq hi => exact .taken hq hi
  | touched hi hpc => exact .touched hi (next_left _ _ _ hpc) fun mask => next_oneshot hpc
  | rearmed hi => exact .ended hi (show Deed.modFd ≠ .touch by decide)
  | closed hi =>
    rw [closeConn_workload]
    exact .ended hi (show Deed.closeConn ≠ .touch by decide)

/-! ## What every run keeps -/

namespace Workload

variable [Fintype ι] {w : Workload ι} {n : ℕ}

theorem times_goto (place : Option (Task × Pc)) :
    times { w with worker := Function.update w.worker i place } n + (runs n (w.worker i)).toNat
      = w.times n + (runs n place).toNat := by
  have hcount := Threads.count_update w.worker i place (runs n)
  simp only [times]
  omega

namespace Account

omit [DecidableEq ι] in
theorem added (h : w.Account n) (hno : task.no = w.tasks) :
    Account { w with queue := w.queue ++ [task], tasks := w.tasks + 1 } n := by
  have htimes : times { w with queue := w.queue ++ [task], tasks := w.tasks + 1 } n
      = w.times n + (w.tasks == n).toNat := by
    simp only [times, List.map_append, List.count_append, List.map_singleton,
      List.count_singleton, hno, Nat.add_right_comm]
    cases w.tasks == n <;> rfl
  obtain rfl | hne := eq_or_ne w.tasks n
  · rw [beq_self_eq_true, Bool.toNat_true] at htimes
    cases h with
    | unborn _ ht hdeeds =>
      exact .waiting (Nat.lt_succ_self _) (htimes.trans (congrArg (· + 1) ht))
        (List.mem_map.mpr ⟨task, List.mem_append_right _ (List.mem_singleton_self _), hno⟩) hdeeds
    | waiting hlt | running hlt | ended hlt => exact absurd hlt (lt_irrefl _)
  · rw [beq_false_of_ne hne, Bool.toNat_false] at htimes
    cases h with
    | unborn hle ht hdeeds =>
      exact .unborn (Nat.succ_le_of_lt (lt_of_le_of_ne hle hne)) (htimes.trans ht) hdeeds
    | waiting hlt ht hmem hdeeds =>
      refine .waiting (Nat.lt_succ_of_lt hlt) (htimes.trans ht) ?_ hdeeds
      rw [List.map_append]
      exact List.mem_append_left _ hmem
    | running hlt ht hi htask hdeeds hleft =>
      exact .running (Nat.lt_succ_of_lt hlt) (htimes.trans ht) hi htask hdeeds hleft
    | ended hlt ht hdeeds hdeed hk =>
      exact .ended (Nat.lt_succ_of_lt hlt) (htimes.trans ht) hdeeds hdeed hk

theorem taken {rest : List Task} (h : w.Account n) (hq : w.queue = task :: rest)
    (hi : w.worker i = none) : Account
      { w with queue := rest, worker := Function.update w.worker i (some (task, .io)) } n := by
  have htimes : times { w with
      queue := rest, worker := Function.update w.worker i (some (task, .io)) } n = w.times n := by
    have hgoto := times_goto (w := w) (i := i) (n := n) (some (task, .io))
    have hrest : (w.queue.map Task.no).count n
        = (rest.map Task.no).count n + (task.no == n).toNat := by
      rw [hq, List.map_cons, List.count_cons]
      cases task.no == n <;> rfl
    have hnew : runs n (some (task, Pc.io)) = (task.no == n) := rfl
    rw [hi, hnew] at hgoto
    simp only [times] at hgoto ⊢
    change _ + 0 = _ at hgoto
    omega
  have hstay : ∀ {j : ι} {task' : Task} {pc : Pc}, w.worker j = some (task', pc) →
      Function.update w.worker i (some (task, .io)) j = some (task', pc) := by
    intro j task' pc hj
    rw [Function.update_of_ne, hj]
    rintro rfl
    rw [hi] at hj
    cases hj
  cases h with
  | unborn hle ht hdeeds => exact .unborn hle (htimes.trans ht) hdeeds
  | waiting hlt ht hmem hdeeds =>
    rw [hq, List.map_cons, List.mem_cons] at hmem
    obtain rfl | hmem := hmem
    · exact .running (k := 0) hlt (htimes.trans ht) (Function.update_self _ _ _) rfl hdeeds le_rfl
    · exact .waiting hlt (htimes.trans ht) hmem hdeeds
  | running hlt ht hj htask hdeeds hleft =>
    exact .running hlt (htimes.trans ht) (hstay hj) htask hdeeds hleft
  | ended hlt ht hdeeds hdeed hk => exact .ended hlt (htimes.trans ht) hdeeds hdeed hk

/-- A worker that takes another task further leaves the account alone. -/
theorem other {on : Option ℕ} {deed : Deed} {place : Option (Task × Pc)} (h : w.Account n)
    (hi : w.worker i = some (task, pc)) (hno : task.no ≠ n) (hplace : runs n place = false) :
    Account
      { w with
        worker := Function.update w.worker i place
        log := w.log ++ [⟨task, deed, on⟩] } n := by
  set w' : Workload ι := { w with
    worker := Function.update w.worker i place
    log := w.log ++ [⟨task, deed, on⟩] } with hw'
  have htimes : w'.times n = w.times n := by
    have hgoto := times_goto (w := w) (i := i) (n := n) place
    have hold : runs n (some (task, pc)) = false := beq_false_of_ne hno
    rwa [hi, hold, hplace] at hgoto
  have hdeeds : w'.deeds n = w.deeds n := by
    have hsnoc := deeds_snoc (w := w) task deed on n
    rwa [if_neg hno, List.append_nil] at hsnoc
  cases h with
  | unborn hle ht hd => exact .unborn hle (htimes.trans ht) (hdeeds.trans hd)
  | waiting hlt ht hmem hd => exact .waiting hlt (htimes.trans ht) hmem (hdeeds.trans hd)
  | @running j task' pc₀ k hlt ht hj htask hk hbound =>
    refine .running (i := j) hlt (htimes.trans ht) ?_ htask (hdeeds.trans hk) hbound
    refine (Function.update_of_ne ?_ _ _).trans hj
    rintro rfl
    exact hno ((Prod.mk.inj (Option.some.inj (hi.symm.trans hj))).1 ▸ htask)
  | ended hlt ht hd hdeed hk => exact .ended hlt (htimes.trans ht) (hdeeds.trans hd) hdeed hk

omit [DecidableEq ι] in
/-- The account of a task that has a worker. -/
theorem of_worker (h : w.Account n) (hi : w.worker i = some (task, pc)) (hno : task.no = n) :
    n < w.tasks ∧ w.times n = 1 ∧
      ∃ k, w.deeds n = List.replicate k .touch ∧ k + pc.left ≤ 3 := by
  have hpos : 0 < w.times n := hno ▸ Nat.add_pos_right _ (w.count_pos hi)
  cases h with
  | unborn _ ht | ended _ ht => exact absurd ht hpos.ne'
  | waiting _ ht hmem => exact absurd hmem (w.alone ht hi hno).1
  | @running j task' pc₀ k hlt ht hj htask hk hbound =>
    obtain rfl := (w.alone ht hi hno).2 j task' pc₀ hj htask
    obtain ⟨rfl, rfl⟩ := Prod.mk.inj (Option.some.inj (hi.symm.trans hj))
    exact ⟨hlt, ht, k, hk, hbound⟩

theorem touched {on : Option ℕ} {pc' : Pc} (h : w.Account n) (hi : w.worker i = some (task, pc))
    (hleft : pc'.left < pc.left) : Account
      { w with
        worker := Function.update w.worker i (some (task, pc'))
        log := w.log ++ [⟨task, .touch, on⟩] } n := by
  by_cases hno : task.no = n
  · obtain ⟨hlt, ht, k, hk, hbound⟩ := h.of_worker hi hno
    have hgoto := times_goto (w := w) (i := i) (n := n) (some (task, pc'))
    have hsnoc := deeds_snoc (w := w) task .touch on n
    rw [hi] at hgoto
    rw [if_pos hno, hk, ← List.replicate_succ'] at hsnoc
    exact .running hlt ((Nat.add_right_cancel hgoto).trans ht) (Function.update_self _ _ _) hno
      hsnoc (by omega)
  · exact h.other hi hno (beq_false_of_ne hno)

theorem leaves {on : Option ℕ} {deed : Deed} (h : w.Account n)
    (hi : w.worker i = some (task, pc)) (hdeed : deed ≠ .touch) : Account
      { w with
        worker := Function.update w.worker i none
        log := w.log ++ [⟨task, deed, on⟩] } n := by
  by_cases hno : task.no = n
  · obtain ⟨hlt, ht, k, hk, hbound⟩ := h.of_worker hi hno
    have hgoto := times_goto (w := w) (i := i) (n := n) none
    have hsnoc := deeds_snoc (w := w) task deed on n
    have hruns : runs n (some (task, pc)) = true := beq_iff_eq.mpr hno
    have hpos := pc.left_pos
    rw [hi, hruns, ht] at hgoto
    rw [if_pos hno, hk] at hsnoc
    exact .ended hlt (Nat.add_right_cancel hgoto) hsnoc hdeed (by omega)
  · exact h.other hi hno rfl

end Account

end Workload

variable [Fintype ι]

theorem Course.account {w : Workload ι} {n : ℕ} (h : Course s w)
    (ha : s.workload.Account n) : w.Account n := by
  cases h with
  | unchanged => exact ha
  | added hno => exact ha.added hno
  | taken hq hi => exact ha.taken hq hi
  | touched hi hleft _ => exact ha.touched hi hleft
  | ended hi hdeed => exact ha.leaves hi hdeed

/-- **Every task is accounted for**, in every state that a run reaches. -/
theorem Reach.account {cfg : Config} (h : (machine ι cfg).Reach s) (n : ℕ) :
    s.workload.Account n := by
  refine Machine.Reach.invariant (I := fun s => s.workload.Account n) h ?_ ?_
  · rintro s rfl
    have hidle : Threads.count (fun _ : ι => none) (runs n) = 0 :=
      Threads.count_eq_zero_iff.mpr fun _ => rfl
    exact .unborn (Nat.zero_le n) ((Nat.zero_add _).trans hidle) rfl
  · intro s o s' ha hl he
    exact (exec_does hl he).course.account ha

end Dispatch

end Server

end WebServer
