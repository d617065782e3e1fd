import WebServer.Log.WriteThread

/-!
# Log/Destructor — `~Log`, beside the write thread

The destructor tests `_write_thread`, polls the queue until it is empty, closes it and joins the
thread; then it tests `_fp`, and closes the file.  Nobody is in `write` then, so a step is one of
the destructor's or one of the write thread's, which goes on as in `Log/Log`.  `close` notifies the
consumers once: a write thread that is not in a wait at that moment, because it still has the last
line in its hands or has not yet locked the queue, will wait for a notification that has been.
-/

namespace WebServer

namespace Log

/-- Where `~Log` is. -/
inductive Phase where
  /-- About to ask whether there is a write thread. -/
  | starting
  /-- About to ask whether the queue is empty. -/
  | polling
  /-- It was not. -/
  | flushing
  /-- It was. -/
  | closing
  /-- In `close`, about to notify the consumers, and then the producers. -/
  | notifying
  | notifyingProducers
  | joining
  /-- About to ask whether there is a file. -/
  | joined
  | ended
  deriving DecidableEq, Repr

structure Exit (ι : Type) where
  log : State ι
  phase : Phase
  /-- The write thread was busy when `close` notified the consumers. -/
  missed : Bool

namespace Exit

variable {ι : Type}

inductive Op (ι : Type) where
  /-- `_write_thread != nullptr`. -/
  | finds (running : Bool)
  /-- `_que->empty()`, and what it returns. -/
  | sees (empty : Bool)
  | flush (target : Option (Option ι))
  | close
  | notifyConsumers
  | notifyProducers
  | join
  /-- There is a file: `_m` is taken, and the file flushed and closed. -/
  | closeFile (target : Option (Option ι))
  /-- There is none. -/
  | skipFile
  /-- The write thread makes a step, or its wait ends without a notification. -/
  | thread (o : Log.Op ι)

section Model

variable (abi : Abi (Guarded (Option ι))) (d : ι)

def Legal (s : Exit ι) : Op ι → Prop
  | .finds running => s.phase = .starting ∧ running = s.log.hasThread
  | .sees empty => s.phase = .polling ∧ empty = s.log.que.queue.empty
  | .flush target => s.phase = .flushing ∧ BlockQueue.Legal s.log.que (.flush target)
  | .close => s.phase = .closing ∧ BlockQueue.Legal s.log.que (.close (some d))
  | .notifyConsumers =>
    s.phase = .notifying ∧ BlockQueue.Legal s.log.que (.notifyConsumers (some d))
  | .notifyProducers =>
    s.phase = .notifyingProducers ∧ BlockQueue.Legal s.log.que (.notifyProducers (some d))
  | .join => s.phase = .joining ∧ s.log.place none = .done
  | .closeFile target => s.phase = .joined ∧ s.log.hasFp = true ∧ s.log.holder = none ∧
    BlockQueue.Legal s.log.que (.flush target)
  | .skipFile => s.phase = .joined ∧ s.log.hasFp = false
  | .thread o => ofThread o ∧ Log.Legal s.log o

variable [DecidableEq ι]

/-- A step of the destructor in the queue. -/
def inQueue (s : Exit ι) (o : BlockQueue.Op (Option ι) Line) (phase : Phase) : Exec (Exit ι) := do
  deref s.log.hasQue
  let que ← BlockQueue.exec s.log.que o
  return { s with log := { s.log with que := que }, phase := phase }

def exec (s : Exit ι) : Op ι → Exec (Exit ι)
  | .finds running => .ok { s with phase := if running then .polling else .joined }
  | .sees empty => s.inQueue .look (if empty then .closing else .flushing)
  | .flush target => s.inQueue (.flush target) .polling
  | .close => s.inQueue (.close (some d)) .notifying
  | .notifyConsumers =>
    { s with missed := s.log.busy }.inQueue (.notifyConsumers (some d)) .notifyingProducers
  | .notifyProducers => s.inQueue (.notifyProducers (some d)) .joining
  | .join => do
    deref s.log.hasThread
    return { s with phase := .joined }
  | .closeFile target => s.inQueue (.flush target) .ended
  | .skipFile => .ok { s with phase := .ended }
  | .thread o => do
    let log ← Log.exec abi s.log o
    return { s with log := log }

/-- The destructor is run by the thread `d`. -/
def machine (log : State ι) : Machine Fault (Exit ι) (Op ι) where
  init s := s = ⟨log, .starting, false⟩
  legal := Legal d
  exec := exec abi d

end Model

/-- What a step from outside may add: another round of polling, or a spurious wake-up. -/
def cost : Op ι → ℕ
  | .sees false => 3
  | .thread o => Log.cost o
  | _ => 0

/-- The steps that may still come of where the destructor is. -/
def Phase.rank : Phase → ℕ
  | .ended => 0
  | .joined => 1
  | .joining => 2
  | .notifyingProducers => 3
  | .notifying => 5
  | .closing => 6
  | .polling => 7
  | .starting => 8
  | .flushing => 9

def effort (s : Exit ι) : ℕ := Phase.rank s.phase + pull s.log

/-- It waits for a thread that waits for a notification which has been. -/
structure Hangs (s : Exit ι) : Prop where
  joining : s.phase = .joining
  parked : s.log.que.place none = .within .pop .parked
  missed : s.missed = true

/-! ## The steps -/

variable [DecidableEq ι] {abi : Abi (Guarded (Option ι))} {s s' : State ι} {o : Log.Op ι}
variable {d : ι} {log : State ι} {lines : List Line} {t t' : Exit ι} {op : Op ι}

/-- Where the destructor's thread is in the queue. -/
def Phase.place : Phase → BlockQueue.Place Line → Prop
  | .notifying, q => q = .closing
  | .notifyingProducers, q => q = .closingProducers
  | _, q => ∃ ret, q = .idle ret

/-- **The invariant.** -/
structure Winding (d : ι) (lines : List Line) (t : Exit ι) : Prop where
  beside : Beside t.log
  handed : t.log.handed = lines
  destroyer : Phase.place t.phase (t.log.que.place (some d))
  closed : t.log.que.queue.isClosed = true ↔ Phase.rank t.phase ≤ 5
  emptied : Phase.rank t.phase ≤ 6 → t.log.que.queue.q = []
  ended : t.log.place none = .done → Phase.rank t.phase ≤ 5
  joined : Phase.rank t.phase ≤ 1 → t.log.place none = .done
  /-- A notification that was not missed is on its way, or has been heard. -/
  heard : Phase.rank t.phase ≤ 3 → t.missed = false → t.log.place none = .done ∨
    ∃ c stage, t.log.que.place none = .within c stage ∧ (stage = .notified ∨ stage = .woken)

namespace Winding

/-- **A step of the write thread.** -/
theorem thread (h : Winding d lines t) (ht : Turns t.log o s') :
    Winding d lines { t with log := s' } where
  beside := ht.beside h.beside
  handed := ht.handed.trans h.handed
  destroyer := by
    rw [show s'.que.place (some d) = _ from ht.others h.beside d]
    exact h.destroyer
  closed := by
    rw [show s'.que.queue.isClosed = _ from ht.queue.1]
    exact h.closed
  emptied hrank := ht.queue.2 (h.emptied hrank)
  ended hdone := h.closed.mp (ht.ends.2 hdone)
  joined hrank := absurd (h.joined hrank) ht.ends.1
  heard hrank hmissed := by
    have hclosed := h.closed.mpr (hrank.trans (by decide))
    obtain hdone | ⟨c, stage, hplace, hstage⟩ := h.heard hrank hmissed
    · exact absurd hdone ht.ends.1
    have hheard : ∀ {stage' : BlockQueue.Stage}, t.log.que.place none = .within .pop stage' →
        stage' ≠ .fresh ∧ stage' ≠ .parked := by
      intro stage' hplace'
      cases hplace.symm.trans hplace'
      obtain rfl | rfl := hstage <;> exact ⟨nofun, nofun⟩
    have hidle : ∀ {a : Place}, t.log.place none = a → a.Fits (t.log.que.place none) := fun ha =>
      ha ▸ h.beside.fits
    have hnopen : ∀ {stage' : BlockQueue.Stage}, stage' ≠ .fresh →
        ¬ (stage' = .fresh ∨ t.log.que.queue.isClosed = false) := by
      rintro stage' hne (hfresh | hopen)
      · exact hne hfresh
      · rw [hclosed] at hopen
        cases hopen
    cases ht with
    | waits hp hplace' hstage' hopen | takes hp hplace' hstage' hopen =>
      exact absurd hopen (hnopen (hheard hplace').1)
    | denied => exact .inl rfl
    | wake hp hplace' => exact absurd rfl (hheard hplace').2
    | callPop hp | lockThread hp | fputsThread hp | unlockThread hp =>
      have hfits := hidle hp
      rw [hplace] at hfits
      obtain ⟨ret, heq⟩ := hfits
      cases heq

end Winding

/-! ### In the queue -/

/-- The queue after a step of the destructor: the lines in it are the same, nobody but the write
thread is in it, and that is where it was, or woken from its wait. -/
structure Stirs (s : State ι) (que : BlockQueue.State (Option ι) Line) : Prop where
  same : que.queue.q = s.que.queue.q
  outside : ∀ i c stage, que.place (some i) ≠ .within c stage
  thread : que.place none = s.que.place none ∨
    s.que.place none = .within .pop .parked ∧ que.place none = .within .pop .notified

variable {que : BlockQueue.State (Option ι) Line}

namespace Stirs

omit [DecidableEq ι]

theorem beside (hq : Stirs s que) (h : Beside s) : Beside { s with que := que } := by
  refine ⟨h.callers, hq.outside, ?_, h.part, h.held, h.whole, fun hparked => ?_⟩
  · obtain hsame | ⟨hbefore, hafter⟩ := hq.thread
    · rw [show que.place none = _ from hsame]
      exact h.fits
    · rw [show que.place none = _ from hafter]
      have hfits := h.fits
      rw [hbefore] at hfits
      rw [hfits.popping.1]
      exact ⟨_, rfl⟩
  · obtain hsame | ⟨-, hafter⟩ := hq.thread
    · exact hq.same.trans (h.fed (hsame.symm.trans hparked))
    · cases hafter.symm.trans hparked

theorem handed (hq : Stirs s que) : State.handed { s with que := que } = s.handed := by
  rw [State.handed, State.waiting, State.handed, State.waiting, hq.same]

/-- The write thread has a turn more to make, if it is woken. -/
theorem pull_le (hq : Stirs s que) : pull { s with que := que } ≤ pull s + 1 := by
  have hstir := stir_le (que.place none)
  by_cases hdone : s.place none = .done
  · refine le_of_eq_of_le (pull_done hdone) ?_
    exact Nat.zero_le _
  · refine le_of_eq_of_le (pull_eq rfl hdone) ?_
    rw [pull_eq rfl hdone, ← hq.same]
    show (s.place none).effort + 5 * que.queue.q.length + stir (que.place none) ≤ _
    omega

theorem pull_eq_of_same (hq : Stirs s que) (hsame : que.place none = s.que.place none) :
    pull { s with que := que } = pull s := by
  by_cases hdone : s.place none = .done
  · refine Eq.trans (pull_done hdone) ?_
    rw [pull_done hdone]
  · refine Eq.trans (pull_eq rfl hdone) ?_
    rw [pull_eq rfl hdone, ← hq.same, ← hsame]

/-- Whom a notification of the consumers wakes is the write thread, in its wait. -/
theorem parked_of_wait (h : Beside s)
    (hwait : (BlockQueue.cond true).wait (s.que.place none) = .parked) :
    s.que.place none = .within .pop .parked := by
  cases hplace : s.que.place none with
  | within c stage =>
    obtain ⟨-, rfl⟩ := h.within hplace
    rw [hplace] at hwait
    cases stage with
    | parked => rfl
    | _ => cases hwait
  | _ =>
    rw [hplace] at hwait
    cases hwait

theorem look (h : Beside s) : Stirs s s.que := ⟨rfl, h.outside, .inl rfl⟩

variable [DecidableEq ι]

/-- A flush. -/
theorem flush {target : Option (Option ι)} (h : Beside s)
    (ht : (BlockQueue.cond true).Picks s.que.place target) :
    Stirs s (s.que.notifyOne true target) where
  same := rfl
  outside i c stage := by
    rw [show (s.que.notifyOne true target).place (some i) = s.que.place (some i) from
      notifyOne_outside (h.outside i)]
    exact h.outside i c stage
  thread := by
    cases target with
    | none => exact .inl rfl
    | some j =>
      cases j with
      | some i => exact .inl rfl
      | none =>
        have hparked := parked_of_wait h ht
        refine .inr ⟨hparked, ?_⟩
        show (s.que.place none).wake = _
        rw [hparked]
        rfl

/-- The destructor's own step, beside a queue in which it is not. -/
theorem goto {place : Option ι → BlockQueue.Place Line} {q : BlockQueue.Place Line}
    (hplace : que.place = Function.update place (some d) q) (hsame : que.queue.q = s.que.queue.q)
    (houtside : ∀ i c stage, place (some i) ≠ .within c stage)
    (hq : ∀ c stage, q ≠ .within c stage)
    (hthread : place none = s.que.place none ∨
      s.que.place none = .within .pop .parked ∧ place none = .within .pop .notified) :
    Stirs s que where
  same := hsame
  outside i c stage := by
    rw [hplace]
    by_cases hi : i = d
    · rw [hi, Function.update_self]
      exact hq c stage
    · rw [Function.update_of_ne fun heq => hi (Option.some.inj heq)]
      exact houtside i c stage
  thread := by
    rw [hplace, Function.update_of_ne (Option.some_ne_none d).symm]
    exact hthread

omit [DecidableEq ι] in
theorem notifyAll_outside {side : Bool} (h : Beside s) (i : ι) (c : BlockQueue.Call Line)
    (stage : BlockQueue.Stage) :
    (BlockQueue.cond side).notifyAll s.que.place (some i) ≠ .within c stage := by
  have hwait : (BlockQueue.cond side).wait (s.que.place (some i)) ≠ .parked := by
    intro hwait
    cases hplace : s.que.place (some i) with
    | within c stage => exact h.outside i c stage hplace
    | _ =>
      rw [hplace] at hwait
      cases hwait
  rw [CondVar.notifyAll_eq hwait]
  exact h.outside i c stage

/-- `close`, as far as its critical section. -/
theorem close (h : Beside s) : Stirs s { s.que.goto (some d) .closing with
    queue := { s.que.queue with isClosed := true } } :=
  .goto rfl rfl h.outside nofun (.inl rfl)

/-- The notification of the consumers ends the wait of the write thread. -/
theorem notifyConsumers (h : Beside s) : Stirs s { s.que with
    place := Function.update ((BlockQueue.cond true).notifyAll s.que.place) (some d)
      .closingProducers
    consumersFreed := true } := by
  refine .goto rfl rfl (notifyAll_outside h) nofun ?_
  rw [CondVar.notifyAll]
  split
  · rename_i hwait
    have hparked := parked_of_wait h hwait
    refine .inr ⟨hparked, ?_⟩
    show (s.que.place none).wake = _
    rw [hparked]
    rfl
  · exact .inl rfl

omit [DecidableEq ι] in
/-- That of the producers does not reach it. -/
theorem notifyAll_producers (h : Beside s) :
    (BlockQueue.cond false).notifyAll s.que.place none = s.que.place none := by
  refine CondVar.notifyAll_eq ?_
  cases hplace : s.que.place none with
  | within c stage =>
    obtain ⟨-, rfl⟩ := h.within hplace
    exact Wait.noConfusion
  | _ => exact Wait.noConfusion

theorem notifyProducers (h : Beside s) : Stirs s { s.que with
    place := Function.update ((BlockQueue.cond false).notifyAll s.que.place) (some d) (.idle none)
    closeReturned := true } :=
  .goto rfl rfl (notifyAll_outside h) nofun (.inl (notifyAll_producers h))

end Stirs

omit [DecidableEq ι] in
/-- The destructor goes on in the queue. -/
theorem Winding.stirs {phase : Phase} {missed : Bool}
    (h : Winding d lines t) (hq : Stirs t.log que)
    (hdestroyer : Phase.place phase (que.place (some d)))
    (hclosed : que.queue.isClosed = true ↔ Phase.rank phase ≤ 5)
    (hemptied : Phase.rank phase ≤ 6 → t.log.que.queue.q = [])
    (hended : t.log.place none = .done → Phase.rank phase ≤ 5)
    (hjoined : Phase.rank phase ≤ 1 → t.log.place none = .done)
    (hheard : Phase.rank phase ≤ 3 → missed = false → t.log.place none = .done ∨
      ∃ c stage, que.place none = .within c stage ∧ (stage = .notified ∨ stage = .woken)) :
    Winding d lines ⟨{ t.log with que := que }, phase, missed⟩ :=
  ⟨hq.beside h.beside, hq.handed.trans h.handed, hdestroyer, hclosed,
    fun hrank => hq.same.trans (hemptied hrank), hended, hjoined, hheard⟩

omit [DecidableEq ι] in
/-- **A thread that is not busy hears the notification.** -/
theorem heard_of_not_busy (h : Beside s) (hbusy : s.busy = false) : s.place none = .done ∨
    ∃ c stage, (BlockQueue.cond true).notifyAll s.que.place none = .within c stage ∧
      (stage = .notified ∨ stage = .woken) := by
  by_cases hdone : s.place none = .done
  · exact .inl hdone
  have hwaits : waits (s.que.place none) = true := by simpa [State.busy, hdone] using hbusy
  cases hplace : s.que.place none with
  | within c stage =>
    obtain ⟨-, rfl⟩ := h.within hplace
    rw [hplace] at hwaits
    refine .inr ⟨.pop, ?_⟩
    rw [CondVar.notifyAll, hplace]
    cases stage with
    | fresh => cases hwaits
    | woken => exact ⟨.woken, rfl, .inr rfl⟩
    | parked | notified => exact ⟨.notified, rfl, .inl rfl⟩
  | _ =>
    rw [hplace] at hwaits
    cases hwaits

theorem inQueue_eq {o : BlockQueue.Op (Option ι) Line} {phase : Phase}
    (hque : t.log.hasQue = true) (he : BlockQueue.exec t.log.que o = .ok que) :
    t.inQueue o phase = .ok { t with log := { t.log with que := que }, phase := phase } := by
  rw [inQueue, hque, he]
  rfl

theorem of_inQueue {o : BlockQueue.Op (Option ι) Line} {phase : Phase}
    (h : t.inQueue o phase = .ok t') : ∃ que, BlockQueue.exec t.log.que o = .ok que ∧
      t' = { t with log := { t.log with que := que }, phase := phase } := by
  obtain ⟨u, -, h⟩ := bind_eq_ok.mp h
  obtain ⟨que, he, h⟩ := bind_eq_ok.mp h
  exact ⟨que, he, (Except.ok.inj h).symm⟩

/-- **A step of the destructor does not fail, keeps the invariant and is paid for.** -/
theorem Winding.step (abi : Abi (Guarded (Option ι))) (h : Winding d lines t)
    (hl : Legal d t op) :
    ∃ t', exec abi d t op = .ok t' ∧ Winding d lines t' ∧ effort t' < effort t + cost op := by
  obtain ⟨s, phase, missed⟩ := t
  have hbeside : Beside s := h.beside
  obtain ⟨hfp, hque, hthread⟩ : s.hasFp = true ∧ s.hasQue = true ∧ s.hasThread = true :=
    hbeside.whole
  -- What is not so yet, and what does not change any more.
  have hopen : 5 < Phase.rank phase → ¬ s.que.queue.isClosed = true := fun hrank hc =>
    absurd (h.closed.mp hc) (not_le.mpr hrank)
  have hrun : 5 < Phase.rank phase → s.place none ≠ .done := fun hrank hdone =>
    absurd (h.ended hdone) (not_le.mpr hrank)
  have hnotify : ∀ target, (s.que.notifyOne true target).place (some d) = s.que.place (some d) :=
    fun _ => notifyOne_outside (hbeside.outside d)
  cases op with
  | thread o =>
    obtain ⟨s', he, ht⟩ := hbeside.turns abi hl.1 hl.2
    refine ⟨{ log := s', phase := phase, missed := missed }, ?_, h.thread ht, ?_⟩
    · simp only [exec, he, ok_bind, pure_eq_ok]
    · have hpull := ht.pull hbeside
      show Phase.rank phase + pull s' < Phase.rank phase + pull s + Log.cost o
      omega
  | finds running =>
    obtain ⟨rfl, hrunning⟩ := hl
    obtain rfl : running = true := hrunning.trans hthread
    have hdone := hrun (by simp [Phase.rank])
    have hclosed := hopen (by simp [Phase.rank])
    refine ⟨⟨s, .polling, missed⟩, rfl, ?_, ?_⟩
    · exact h.stirs (.look hbeside) h.destroyer (by simp [Phase.rank, hclosed])
        (by simp [Phase.rank]) (fun hend => absurd hend hdone) (by simp [Phase.rank])
        (by simp [Phase.rank])
    · show 7 + pull s < 8 + pull s + 0
      omega
  | skipFile =>
    obtain ⟨-, hnone⟩ := hl
    cases hnone.symm.trans hfp
  | sees empty =>
    obtain ⟨rfl, hempty⟩ := hl
    have hdone := hrun (by simp [Phase.rank])
    have hclosed := hopen (by simp [Phase.rank])
    cases empty with
    | true =>
      have hq : s.que.queue.q = [] := List.isEmpty_iff.mp hempty.symm
      refine ⟨⟨s, .closing, missed⟩, inQueue_eq hque rfl, ?_, ?_⟩
      · exact h.stirs (.look hbeside) h.destroyer (by simp [Phase.rank, hclosed]) (fun _ => hq)
          (fun hend => absurd hend hdone) (by simp [Phase.rank]) (by simp [Phase.rank])
      · show 6 + pull s < 7 + pull s + 0
        omega
    | false =>
      refine ⟨⟨s, .flushing, missed⟩, inQueue_eq hque rfl, ?_, ?_⟩
      · exact h.stirs (.look hbeside) h.destroyer (by simp [Phase.rank, hclosed])
          (by simp [Phase.rank]) (fun hend => absurd hend hdone) (by simp [Phase.rank])
          (by simp [Phase.rank])
      · show 9 + pull s < 7 + pull s + 3
        omega
  | flush target =>
    obtain ⟨rfl, ht⟩ := hl
    have hdone := hrun (by simp [Phase.rank])
    have hclosed := hopen (by simp [Phase.rank])
    have hstirs := Stirs.flush hbeside ht
    have hpull := hstirs.pull_le
    refine ⟨⟨{ s with que := s.que.notifyOne true target }, .polling, missed⟩,
      inQueue_eq hque rfl, ?_, ?_⟩
    · refine h.stirs hstirs ?_ ?_ (by simp [Phase.rank]) (fun hend => absurd hend hdone)
        (by simp [Phase.rank]) (by simp [Phase.rank])
      · rw [hnotify]
        exact h.destroyer
      · exact iff_of_false hclosed (by simp [Phase.rank])
    · show 7 + pull { s with que := s.que.notifyOne true target } < 9 + pull s + 0
      omega
  | close =>
    obtain ⟨rfl, -⟩ := hl
    have hstirs := Stirs.close (d := d) hbeside
    have hpull := hstirs.pull_eq_of_same rfl
    refine ⟨_, inQueue_eq hque rfl,
      h.stirs hstirs ?_ ?_ (fun _ => h.emptied (by simp [Phase.rank])) ?_ ?_ ?_, ?_⟩
    · exact Function.update_self ..
    · exact iff_of_true rfl (by simp [Phase.rank])
    · simp [Phase.rank]
    · simp [Phase.rank]
    · simp [Phase.rank]
    · refine lt_of_eq_of_lt (congrArg (5 + ·) hpull) ?_
      show 5 + pull s < 6 + pull s + 0
      omega
  | notifyConsumers =>
    obtain ⟨rfl, -⟩ := hl
    have hstirs := Stirs.notifyConsumers (d := d) hbeside
    have hpull := hstirs.pull_le
    refine ⟨_, inQueue_eq hque rfl,
      h.stirs hstirs ?_ ?_ (fun _ => h.emptied (by simp [Phase.rank])) ?_ ?_ ?_, ?_⟩
    · exact Function.update_self ..
    · exact iff_of_true (h.closed.mpr (by simp [Phase.rank])) (by simp [Phase.rank])
    · simp [Phase.rank]
    · simp [Phase.rank]
    · exact fun _ hmissed => heard_of_not_busy hbeside hmissed
    · refine lt_of_le_of_lt (Nat.add_le_add_left hpull 3) ?_
      show 3 + (pull s + 1) < 5 + pull s + 0
      omega
  | notifyProducers =>
    obtain ⟨rfl, -⟩ := hl
    have hnone := Stirs.notifyAll_producers hbeside
    have hstirs := Stirs.notifyProducers (d := d) hbeside
    have hpull := hstirs.pull_eq_of_same hnone
    refine ⟨_, inQueue_eq hque rfl,
      h.stirs hstirs ?_ ?_ (fun _ => h.emptied (by simp [Phase.rank])) ?_ ?_ ?_, ?_⟩
    · exact ⟨none, Function.update_self ..⟩
    · exact iff_of_true (h.closed.mpr (by simp [Phase.rank])) (by simp [Phase.rank])
    · simp [Phase.rank]
    · simp [Phase.rank]
    · intro _ hmissed
      obtain hdone | ⟨c, stage, hplace, hstage⟩ := h.heard (by simp [Phase.rank]) hmissed
      · exact .inl hdone
      · exact .inr ⟨c, stage, hnone.trans hplace, hstage⟩
    · refine lt_of_eq_of_lt (congrArg (2 + ·) hpull) ?_
      show 2 + pull s < 3 + pull s + 0
      omega
  | join =>
    obtain ⟨rfl, hdone⟩ := hl
    refine ⟨⟨s, .joined, missed⟩, by simp only [exec, hthread]; rfl, ?_, ?_⟩
    · exact h.stirs (.look hbeside) h.destroyer
        (iff_of_true (h.closed.mpr (by simp [Phase.rank])) (by simp [Phase.rank]))
        (fun _ => h.emptied (by simp [Phase.rank])) (by simp [Phase.rank]) (fun _ => hdone)
        fun _ _ => .inl hdone
    · show 1 + pull s < 2 + pull s + 0
      omega
  | closeFile target =>
    obtain ⟨rfl, -, -, ht⟩ := hl
    have hdone := h.joined (by simp [Phase.rank])
    have hstirs := Stirs.flush hbeside ht
    refine ⟨⟨{ s with que := s.que.notifyOne true target }, .ended, missed⟩,
      inQueue_eq hque rfl, ?_, ?_⟩
    · refine h.stirs hstirs ?_ ?_ (fun _ => h.emptied (by simp [Phase.rank])) ?_ (fun _ => hdone)
        fun _ _ => .inl hdone
      · rw [hnotify]
        exact h.destroyer
      · exact iff_of_true (h.closed.mpr (by simp [Phase.rank])) (by simp [Phase.rank])
      · simp [Phase.rank]
    · refine lt_of_eq_of_lt (congrArg (0 + ·) (pull_done hdone)) ?_
      show 0 < 1 + pull s + 0
      omega

end Exit

end Log

end WebServer
