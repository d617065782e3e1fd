import WebServer.Log.Effort

/-!
# Log/Wiped — the first line stops the log

Where 1024 bytes reach beyond the members of `Log`, the `retrieveAll` of the first line nulls
`_fp`, `_que` and `_write_thread`, and frees `_m`.  The line gets into the queue, whose address
`push` has read before; but nobody finds the way to the queue or to the file any more, nor is there
a vector for another line.
-/

namespace WebServer

namespace Log

variable {ι : Type} {abi : Abi (Guarded (Option ι))} {s s' : State ι} {o : Op ι} {a : Place}
  {p : Option ι} {ops : List (Op ι)}

/-- It has come to the hand-over of a line. -/
def Place.past : Place → Bool
  | .pushing _ | .direct _ | .clearing _ | .leaving _ | .holding _ | .writing _ | .written => true
  | _ => false

/-- No line has come so far. -/
structure Intact (s : State ι) : Prop where
  vector : s.buf.buf ≠ []
  que : s.hasQue = true
  before : ∀ p, (s.place p).past = false
  empty : s.que.queue.q = []
  room : 0 < s.que.queue.capacity
  file : s.file = []

/-- The members are null, and a line is on its way. -/
structure Gone (s : State ι) : Prop where
  vector : s.buf.buf = []
  fp : s.hasFp = false
  que : s.hasQue = false
  thread : s.hasThread = false
  file : s.file = []
  line : s.waiting ≠ [] ∨ ∃ i line, s.place (some i) = .pushing line

/-- A step that needs the vector, or follows a pointer. -/
def Op.follows : Op ι → Bool
  | .reopen _ _ _ | .lock _ | .fputs _ | .flush _ | .callPop | .fputsThread => true
  | _ => false

theorem Intact.handed (h : Intact s) : s.handed = [] := by
  have hhand : (s.place none).hand = [] := by
    have hbefore := h.before none
    cases hp : s.place none with
    | holding | writing =>
      rw [hp] at hbefore
      cases hbefore
    | _ => rfl
  rw [State.handed, State.waiting, h.file, hhand, h.empty]
  rfl

/-- Whoever holds the lock has a step to make. -/
theorem Sound.holds_moves (hs : Sound s) (ht : Tended s) (hp : (s.place p).holds = true) :
    ∃ o, cost o = 0 ∧ Legal s o := by
  have hpart := ht.parts p
  obtain ⟨target, htarget⟩ := (BlockQueue.cond true).exists_picks s.que.place
  cases p with
  | none =>
    cases hplace : s.place none with
    | writing line => exact ⟨.fputsThread, rfl, line, hplace⟩
    | written => exact ⟨.unlockThread, rfl, hplace⟩
    | looping | popping | holding | done =>
      rw [hplace] at hp
      cases hp
    | _ =>
      rw [hplace] at hpart
      cases hpart
  | some i =>
    cases hi : s.place (some i) with
    | reopening r => exact ⟨.reopen i target true, rfl, ⟨r, hi⟩, htarget⟩
    | testing no => exact ⟨.test i, rfl, no, hi⟩
    | pushing line =>
      exact ⟨.push i target, rfl, ⟨line, hi⟩, _, _, hs.fits_of hi, nofun, htarget⟩
    | direct no => exact ⟨.fputs i, rfl, no, hi⟩
    | clearing line => exact ⟨.clear i, rfl, line, hi⟩
    | leaving line => exact ⟨.unlock i, rfl, line, hi⟩
    | idle | rotating | arriving =>
      rw [hi] at hp
      cases hp
    | _ =>
      rw [hi] at hpart
      cases hpart

namespace Gone

/-- **A line on its way has a step to make.** -/
theorem moves (h : Gone s) (hs : Sound s) (ht : Tended s) : ∃ o, cost o = 0 ∧ Legal s o := by
  obtain hwaiting | ⟨i, line, hi⟩ := h.line
  · have hpart := ht.parts none
    cases hp : s.place none with
    | looping => exact ⟨.callPop, rfl, hp⟩
    | popping =>
      obtain ⟨stage, hplace⟩ := hs.fits_of hp
      by_cases hstage : stage = .parked
      · refine absurd ?_ hwaiting
        rw [State.waiting, hp, ht.fed (hstage ▸ hplace)]
        rfl
      · obtain ⟨target, htarget⟩ := (BlockQueue.cond false).exists_picks s.que.place
        exact ⟨.pop target, rfl, hp, _, _, hplace, hstage, htarget⟩
    | holding line =>
      cases hholder : s.holder with
      | none => exact ⟨.lockThread, rfl, ⟨line, hp⟩, hholder⟩
      | some j => exact hs.holds_moves ht (hs.kept.held j hholder)
    | writing line => exact ⟨.fputsThread, rfl, line, hp⟩
    | written => exact ⟨.unlockThread, rfl, hp⟩
    | _ =>
      rw [hp] at hpart
      cases hpart
  · exact hs.holds_moves ht (p := some i) (by rw [hi]; rfl)

variable [DecidableEq ι]

/-- **A step that follows a pointer fails.** -/
theorem stops (h : Gone s) (hs : Sound s) (hl : Legal s o) (he : exec abi s o = .ok s') :
    o.follows = false := by
  cases hs.does hl he with
  | lock hi hfree hline => exact absurd h.vector (ne_nil_of_writeLine hline)
  | reopen hi hque | flush hque | callPop hp hque =>
    rw [h.que] at hque
    cases hque
  | fputs hi hfp | fputsThread hp hfp =>
    rw [h.fp] at hfp
    cases hfp
  | _ => rfl

/-- A step of one thread in the log alone, of one that is not in `push`. -/
theorem moved (h : Gone s) (hmembers : s'.toMembers = s.toMembers) (hfile : s'.file = s.file)
    (hwaiting : s'.waiting = s.waiting) (hplace : s'.place = Function.update s.place p a)
    (hp : ∀ line, s.place p ≠ .pushing line) : Gone s' := by
  obtain ⟨hvector, hfp, hque, hthread, hempty, hline⟩ := h
  rw [← congrArg (fun m => m.buf.buf) hmembers] at hvector
  rw [← congrArg Members.hasFp hmembers] at hfp
  rw [← congrArg Members.hasQue hmembers] at hque
  rw [← congrArg Members.hasThread hmembers] at hthread
  refine ⟨hvector, hfp, hque, hthread, hfile.trans hempty, ?_⟩
  rw [hwaiting, hplace]
  obtain hline | ⟨i, line, hi⟩ := hline
  · exact .inl hline
  · have hne : some i ≠ p := by
      rintro rfl
      exact hp line hi
    refine .inr ⟨i, line, ?_⟩
    rwa [Function.update_of_ne hne]

/-- **What was nulled stays null**, and the line does not get to the file. -/
theorem step (hc : Clears abi) (h : Gone s) (hs : Sound s) (hl : Legal s o)
    (he : exec abi s o = .ok s') : Gone s' := by
  have hstops := h.stops hs hl he
  have hcleared : s.cleared abi = s := by
    obtain hsame | ⟨hb, -⟩ := cleared_cases hc s
    · exact hsame
    · exact absurd h.vector hb
  cases hs.does hl he with
  | lock | reopen | flush | callPop | fputs | fputsThread => cases hstops
  | enter hi | lockRotation hi | full hi | unlock hi =>
    exact h.moved rfl rfl rfl rfl fun line => hi ▸ Place.noConfusion
  | @clear i line hi =>
    rw [hcleared]
    exact h.moved rfl rfl rfl rfl fun line => hi ▸ Place.noConfusion
  | room hi hque =>
    rw [h.que] at hque
    cases hque
  | @push i line target hi =>
    refine ⟨h.vector, h.fp, h.que, h.thread, h.file, .inl ?_⟩
    show (s.place none).hand ++ (s.que.queue.q ++ [line]) ≠ []
    simp
  | wake | waits => exact ⟨h.vector, h.fp, h.que, h.thread, h.file, h.line⟩
  | @takes target line rest hp =>
    exact ⟨h.vector, h.fp, h.que, h.thread, h.file, .inl (List.cons_ne_nil line rest)⟩
  | @lockThread line hp =>
    exact ⟨h.vector, h.fp, h.que, h.thread, h.file,
      .inl (List.cons_ne_nil line s.que.queue.q)⟩
  | unlockThread hp =>
    have hwaiting : ([] ++ s.que.queue.q : List Line) = s.waiting := by
      rw [State.waiting, hp]
      rfl
    exact h.moved rfl rfl hwaiting rfl fun line => hp ▸ Place.noConfusion

end Gone

variable [DecidableEq ι]

/-- What one thread's step leaves before the hand-over. -/
theorem Intact.before_update (h : Intact s) (ha : a.past = false) (j : Option ι) :
    (Function.update s.place p a j).past = false :=
  Threads.update_forall (Q := fun a : Place => a.past = false) h.before ha j

/-- **The log is as `init` left it, or its members are gone.** -/
theorem Intact.step (hw : Wipes abi) (h : Intact s) (hlines : Account s) (hfirst : First s)
    (hd : Does abi s o s') : Intact s' ∨ Gone s' := by
  cases hd with
  | @enter i r rotates =>
    refine .inl ⟨h.vector, h.que, h.before_update ?_, h.empty, h.room, h.file⟩
    cases rotates <;> rfl
  | lockRotation | reopen =>
    exact .inl ⟨h.vector, h.que, h.before_update rfl, h.empty, h.room, h.file⟩
  | lock hi hfree hline =>
    exact .inl ⟨writeLine_ne_nil hline, h.que, h.before_update rfl, h.empty, h.room, h.file⟩
  | full hi hfull =>
    have hle := hfull h.que
    rw [h.empty] at hle
    exact absurd h.room (not_lt.mpr hle)
  | @room i no text hi =>
    have hmade := (hlines.buffered (some i) no (by rw [hi]; exact List.mem_singleton_self _)).1
    have hlen : 1024 ≤ s.buf.buf.length := by
      cases hfirst with
      | unmade hbuf hsections => exact absurd hsections (Nat.zero_lt_of_lt hmade).ne'
      | made hbuf => exact hbuf
      | cleared hbuf => exact absurd hbuf h.vector
    have hnull : abi.zeroed s.buf.buf.length s.toGuarded = .null := hw.whole _ _ hlen
    refine .inr ⟨?_, ?_, ?_, ?_, h.file, .inr ⟨i, ⟨no, text⟩, Function.update_self ..⟩⟩
    · show (abi.zeroed s.buf.buf.length s.toGuarded).buf.buf = []
      rw [hnull]
      rfl
    · show (abi.zeroed s.buf.buf.length s.toGuarded).hasFp = false
      rw [hnull]
      rfl
    · show (abi.zeroed s.buf.buf.length s.toGuarded).hasQue = false
      rw [hnull]
      rfl
    · show (abi.zeroed s.buf.buf.length s.toGuarded).hasThread = false
      rw [hnull]
      rfl
  | flush | waits => exact .inl ⟨h.vector, h.que, h.before, h.empty, h.room, h.file⟩
  | wake => exact .inl ⟨h.vector, h.que, h.before, h.empty, h.room, h.file⟩
  | callPop => exact .inl ⟨h.vector, h.que, h.before_update rfl, h.empty, h.room, h.file⟩
  | takes hp ht hq =>
    rw [h.empty] at hq
    cases hq
  | push hi | fputs hi | clear hi | unlock hi | lockThread hi | fputsThread hi
  | unlockThread hi =>
    have hpast := congrArg Place.past hi
    rw [h.before] at hpast
    cases hpast

theorem intact_or_gone (hw : Wipes abi) (h : (machine ι abi).Reach s) : Intact s ∨ Gone s := by
  induction h with
  | init hs =>
    obtain ⟨capacity, hpos, rfl⟩ := hs
    refine .inl ⟨List.cons_ne_nil _ _, rfl, fun p => ?_, rfl, hpos, rfl⟩
    cases p <;> rfl
  | step hs hl he ih =>
    have hc := hw.toClears
    have hsound := Sound.reach hc hs
    obtain h | h := ih
    · exact h.step hw (.reach hc hs) (.reach hc hw.voids hs) (hsound.does hl he)
    · exact .inr (h.step hc hsound hl he)

/-- What was nulled stays null along a run. -/
theorem Gone.runs (hc : Clears abi) (h : Gone s) (hs : (machine ι abi).Reach s)
    (hruns : (machine ι abi).Runs s ops s') : Gone s' := by
  induction hruns with
  | nil => exact h
  | cons hl he _ ih => exact ih (h.step hc (.reach hc hs) hl he) (hs.step hl he)

variable [Fintype ι]

/-- **The first line stops the log**, where the zeros reach over its members: no line ever gets to
the file, and once one is handed over, every step that needs the vector, the queue or the file from
`Log` fails.  There is then always a step to make that does not come from outside, and a run has no
more steps than `effort` at its start, and what calls, flushes and spurious wake-ups add; so the log
comes to a step that fails. -/
theorem first_line_stops (hw : Wipes abi) (h : (machine ι abi).Reach s) :
    s.file = [] ∧ (s.handed ≠ [] →
      (∀ o s', Legal s o → exec abi s o = .ok s' → o.follows = false) ∧
      ∀ ops s', (machine ι abi).Runs s ops s' →
        ops.length ≤ s.effort + (ops.map cost).sum ∧ ∃ o, cost o = 0 ∧ Legal s' o) := by
  have hc := hw.toClears
  obtain hintact | hgone := intact_or_gone hw h
  · exact ⟨hintact.file, fun hhanded => absurd hintact.handed hhanded⟩
  · refine ⟨hgone.file, fun _ => ⟨fun o s' hl he => hgone.stops (.reach hc h) hl he,
      fun ops s' hruns => ⟨(Nat.le_add_right _ _).trans (length_le hc h hruns), ?_⟩⟩⟩
    have h' := h.runs hruns
    exact (hgone.runs hc h hruns).moves (.reach hc h') (.reach hc h')

/-- A line has been handed over, and its `write` has returned. -/
theorem first_line_stops_returned : ∃ s : State Unit, s.returned ≠ [] ∧ s.file = [] ∧
    ∀ ops s', (machine Unit (wiped .null)).Runs s ops s' → ∃ o, cost o = 0 ∧ Legal s' o := by
  obtain ⟨s, h, hreturned, hq, -⟩ := reach_returned
  have hhanded : s.handed ≠ [] := handed_ne_nil (by rw [hq, hreturned]; exact List.cons_ne_nil _ _)
  obtain ⟨hfile, hstops⟩ := first_line_stops wipes_wiped h
  refine ⟨s, ?_, hfile, fun ops s' hruns => ((hstops hhanded).2 ops s' hruns).2⟩
  rw [hreturned]
  exact List.cons_ne_nil _ _

end Log

end WebServer
