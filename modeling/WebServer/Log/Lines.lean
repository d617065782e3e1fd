import WebServer.Log.Locks

/-!
# Log/Lines — where the lines of a log are, and in which order

The lines that `write` has handed over are in the file, in the hands of the write thread and in the
queue.  A line that takes the queue joins them at the end, and one that is put into the file
directly goes in ahead of those that are not there yet.  With a `memset` that nulls the vector there
is one line at most.
-/

namespace WebServer

namespace Log

variable {ι : Type} {abi : Abi (Guarded (Option ι))} {s s' : State ι} {a : Place} {p : Option ι}
  {line : Line} {no : ℕ}

/-- The number of the line that a thread has in `_buf`, or in `push`. -/
def Place.number : Place → List ℕ
  | .testing no | .direct no => [no]
  | .pushing line => [line.no]
  | _ => []

/-- The line that a thread has handed over, before `write` returns. -/
def Place.sent : Place → List Line
  | .clearing line | .leaving line => [line]
  | _ => []

theorem Place.hands_of_number (h : no ∈ a.number) : a.hands = true := by
  cases a with
  | testing | pushing | direct => rfl
  | _ => cases h

theorem Place.hands_of_sent (h : line ∈ a.sent) : a.hands = true := by
  cases a with
  | clearing | leaving => rfl
  | _ => cases h

/-- The lines that were handed over. -/
def State.handed (s : State ι) : List Line := s.file ++ s.waiting

theorem handed_ne_nil (h : s.que.queue.q ≠ []) : s.handed ≠ [] :=
  List.append_ne_nil_of_right_ne_nil _ (List.append_ne_nil_of_right_ne_nil _ h)

/-- **The invariant of the lines.** -/
structure Account (s : State ι) : Prop where
  numbered : ∀ line ∈ s.handed, line.no < s.sections
  /-- A line that is not handed over is newer than all that were. -/
  buffered : ∀ p, ∀ no ∈ (s.place p).number, no < s.sections ∧ ∀ old ∈ s.handed, old.no < no
  distinct : (s.handed.map Line.no).Nodup
  sent : ∀ p, ∀ line ∈ (s.place p).sent, line ∈ s.handed ∧ line ∉ s.returned
  returned : ∀ line ∈ s.returned, line ∈ s.handed
  once : s.returned.Nodup

namespace Account

theorem nodup (h : Account s) : s.handed.Nodup := List.Nodup.of_map Line.no h.distinct

/-- A step that hands nothing over and does not return from `write`. -/
theorem quiet (h : Account s) (hhanded : s'.handed = s.handed)
    (hsections : s'.sections = s.sections) (hreturned : s'.returned = s.returned)
    (hnumber : ∀ p, ∀ no ∈ (s'.place p).number, no ∈ (s.place p).number)
    (hsent : ∀ p, ∀ line ∈ (s'.place p).sent, line ∈ (s.place p).sent) : Account s' := by
  refine ⟨?_, fun p no hno => ?_, ?_, fun p line hline => ?_, ?_, ?_⟩
  · rw [hhanded, hsections]
    exact h.numbered
  · rw [hhanded, hsections]
    exact h.buffered p no (hnumber p no hno)
  · rw [hhanded]
    exact h.distinct
  · rw [hhanded, hreturned]
    exact h.sent p line (hsent p line hline)
  · rw [hhanded, hreturned]
    exact h.returned
  · rw [hreturned]
    exact h.once

variable [DecidableEq ι]

/-- What one thread's step keeps of what the threads have. -/
theorem mem_update {β : Type} {f : Place → List β} (ha : ∀ x ∈ f a, x ∈ f (s.place p))
    (j : Option ι) : ∀ x ∈ f (Function.update s.place p a j), x ∈ f (s.place j) := by
  obtain rfl | hj := eq_or_ne j p
  · rwa [Function.update_self]
  · rw [Function.update_of_ne hj]
    exact fun _ hx => hx

/-- A thread moves on, and has no line that it had not. -/
theorem moves (h : Account s) (hplace : s'.place = Function.update s.place p a)
    (hhanded : s'.handed = s.handed) (hsections : s'.sections = s.sections)
    (hreturned : s'.returned = s.returned) (hnumber : ∀ no ∈ a.number, no ∈ (s.place p).number)
    (hsent : ∀ line ∈ a.sent, line ∈ (s.place p).sent) : Account s' := by
  refine h.quiet hhanded hsections hreturned ?_ ?_
  · rw [hplace]
    exact mem_update hnumber
  · rw [hplace]
    exact mem_update hsent

/-- **A thread's line goes over.** -/
theorem hand_over (h : Account s) (hs : Sound s) (hp : line.no ∈ (s.place p).number)
    (hplace : s'.place = Function.update s.place p (.clearing line))
    (hperm : s'.handed.Perm (line :: s.handed)) (hsections : s'.sections = s.sections)
    (hreturned : s'.returned = s.returned) : Account s' := by
  obtain ⟨hno, hnew⟩ := h.buffered p line.no hp
  have hmem : ∀ x, x ∈ s'.handed ↔ x = line ∨ x ∈ s.handed := fun x => by
    rw [hperm.mem_iff, List.mem_cons]
  have hfresh : line ∉ s.returned := fun hline => (hnew line (h.returned line hline)).ne rfl
  refine ⟨fun x hx => ?_, fun j no hj => ?_, ?_, fun j x hj => ?_, fun x hx => ?_, ?_⟩
  · rw [hsections]
    obtain rfl | hx := (hmem x).mp hx
    · exact hno
    · exact h.numbered x hx
  · rw [hplace] at hj
    obtain rfl | hne := eq_or_ne j p
    · rw [Function.update_self] at hj
      cases hj
    · -- Nobody else has a line.
      rw [Function.update_of_ne hne] at hj
      exact absurd (hs.kept.lone j p (Place.hands_of_number hj) (Place.hands_of_number hp)) hne
  · rw [(hperm.map Line.no).nodup_iff, List.map_cons, List.nodup_cons]
    refine ⟨fun hin => ?_, h.distinct⟩
    obtain ⟨old, hold, heq⟩ := List.mem_map.mp hin
    exact (hnew old hold).ne heq
  · rw [hplace] at hj
    rw [hmem, hreturned]
    obtain rfl | hne := eq_or_ne j p
    · rw [Function.update_self] at hj
      obtain rfl := List.mem_singleton.mp hj
      exact ⟨.inl rfl, hfresh⟩
    · rw [Function.update_of_ne hne] at hj
      exact ⟨.inr (h.sent j x hj).1, (h.sent j x hj).2⟩
  · rw [hreturned] at hx
    exact (hmem x).mpr (.inr (h.returned x hx))
  · rw [hreturned]
    exact h.once

/-- **Every step keeps the invariant.** -/
theorem step (h : Account s) (hs : Sound s) {o : Op ι} (hd : Does abi s o s') : Account s' := by
  cases hd with
  | @enter i r rotates hi =>
    refine h.moves rfl rfl rfl rfl ?_ ?_
    · cases rotates <;> exact List.forall_mem_nil _
    · cases rotates <;> exact List.forall_mem_nil _
  | lockRotation hi | reopen hi =>
    exact h.moves rfl rfl rfl rfl (List.forall_mem_nil _) (List.forall_mem_nil _)
  | @lock i r buf hi hfree =>
    refine ⟨fun x hx => ?_, fun j no hno => ?_, ?_, fun j x hj => ?_, ?_, h.once⟩
    · exact (h.numbered x hx).trans (Nat.lt_succ_self _)
    · replace hno : no ∈ (Function.update s.place (some i) _ j).number := hno
      obtain rfl | hne := eq_or_ne j (some i)
      · rw [Function.update_self] at hno
        obtain rfl := List.mem_singleton.mp hno
        exact ⟨Nat.lt_succ_self _, h.numbered⟩
      · rw [Function.update_of_ne hne] at hno
        obtain ⟨hlt, hnew⟩ := h.buffered j no hno
        exact ⟨hlt.trans (Nat.lt_succ_self _), hnew⟩
    · exact h.distinct
    · exact h.sent j x
        (mem_update (f := Place.sent) (fun _ hline => absurd hline List.not_mem_nil) j x hj)
    · exact h.returned
  | full hi =>
    refine h.moves rfl rfl rfl rfl (fun _ hno => ?_) (List.forall_mem_nil _)
    rw [hi]
    exact hno
  | @room i no text hi =>
    refine h.moves (p := some i) (a := .pushing ⟨no, text⟩) rfl rfl rfl rfl (fun _ hno => ?_)
      (List.forall_mem_nil _)
    rw [hi]
    exact hno
  | @push i line target hi ht =>
    have hnumber : line.no ∈ (s.place (some i)).number := by
      rw [hi]
      exact List.mem_singleton_self _
    have hhanded : s.file ++ ((s.place none).hand ++ (s.que.queue.q ++ [line]))
        = s.handed ++ [line] := by
      simp only [State.handed, State.waiting, List.append_assoc]
    refine h.hand_over hs hnumber rfl ?_ rfl rfl
    exact (List.Perm.of_eq hhanded).trans (List.perm_append_singleton _ _)
  | @fputs i no text hi =>
    have hnumber : (⟨no, text⟩ : Line).no ∈ (s.place (some i)).number := by
      rw [hi]
      exact List.mem_singleton_self _
    have hhanded : s.file ++ [⟨no, text⟩] ++ s.waiting = s.file ++ ⟨no, text⟩ :: s.waiting := by
      rw [List.append_assoc]
      rfl
    refine h.hand_over hs hnumber rfl ?_ rfl rfl
    exact (List.Perm.of_eq hhanded).trans List.perm_middle
  | @clear i line hi =>
    refine h.moves (p := some i) (a := .leaving line) rfl rfl rfl rfl (List.forall_mem_nil _)
      fun _ hline => ?_
    rw [hi]
    exact hline
  | @unlock i line hi =>
    have hself : line ∈ (s.place (some i)).sent := by
      rw [hi]
      exact List.mem_singleton_self _
    obtain ⟨hmem, hnot⟩ := h.sent _ line hself
    refine ⟨h.numbered, fun j no hj => ?_, h.distinct, fun j x hj => ?_, fun x hx => ?_, ?_⟩
    · exact h.buffered j no
        (mem_update (f := Place.number) (fun _ hno => absurd hno List.not_mem_nil) j no hj)
    · replace hj : x ∈ (Function.update s.place (some i) .idle j).sent := hj
      obtain rfl | hne := eq_or_ne j (some i)
      · rw [Function.update_self] at hj
        cases hj
      · -- Nobody else has a line to return.
        rw [Function.update_of_ne hne] at hj
        exact absurd (hs.kept.lone j _ (Place.hands_of_sent hj) (Place.hands_of_sent hself)) hne
    · obtain hx | hx := List.mem_append.mp hx
      · exact h.returned x hx
      · obtain rfl := List.mem_singleton.mp hx
        exact hmem
    · exact List.nodup_append.mpr ⟨h.once, List.nodup_singleton _, fun x hx y hy => by
        rw [List.mem_singleton.mp hy]
        exact fun hxy => hnot (hxy ▸ hx)⟩
  | flush | wake | waits =>
    exact h.quiet rfl rfl rfl (fun _ _ hno => hno) fun _ _ hline => hline
  | callPop hp =>
    have hhanded : s.file ++ ([] ++ s.que.queue.q) = s.handed := by
      rw [State.handed, State.waiting, hp]
      rfl
    exact h.moves rfl hhanded rfl rfl (List.forall_mem_nil _) (List.forall_mem_nil _)
  | @takes target line rest hp ht hq =>
    have hhanded : s.file ++ ([line] ++ rest) = s.handed := by
      rw [State.handed, State.waiting, hp, hq]
      rfl
    exact h.moves rfl hhanded rfl rfl (List.forall_mem_nil _) (List.forall_mem_nil _)
  | @lockThread line hp =>
    have hhanded : s.file ++ ([line] ++ s.que.queue.q) = s.handed := by
      rw [State.handed, State.waiting, hp]
      rfl
    exact h.moves rfl hhanded rfl rfl (List.forall_mem_nil _) (List.forall_mem_nil _)
  | @fputsThread line hp =>
    have hhanded : s.file ++ [line] ++ ([] ++ s.que.queue.q) = s.handed := by
      rw [State.handed, State.waiting, hp, List.append_assoc]
      rfl
    exact h.moves rfl hhanded rfl rfl (List.forall_mem_nil _) (List.forall_mem_nil _)
  | unlockThread hp =>
    have hhanded : s.file ++ ([] ++ s.que.queue.q) = s.handed := by
      rw [State.handed, State.waiting, hp]
      rfl
    exact h.moves rfl hhanded rfl rfl (List.forall_mem_nil _) (List.forall_mem_nil _)

omit [DecidableEq ι] in
theorem new (capacity : ℕ) : Account (State.new capacity : State ι) := by
  have hplace : ∀ p, (State.new capacity : State ι).place p
      = if p = none then .looping else .idle := fun _ => rfl
  refine ⟨fun _ hx => absurd hx List.not_mem_nil, fun p no hno => ?_, List.nodup_nil,
    fun p x hx => ?_, fun _ hx => absurd hx List.not_mem_nil, List.nodup_nil⟩
  · rw [hplace] at hno
    cases p <;> cases hno
  · rw [hplace] at hx
    cases p <;> cases hx

theorem reach (hc : Clears abi) (h : (machine ι abi).Reach s) : Account s := by
  induction h with
  | init hs =>
    obtain ⟨capacity, -, rfl⟩ := hs
    exact new capacity
  | step hs hl he ih => exact ih.step (.reach hc hs) ((Sound.reach hc hs).does hl he)

end Account

/-! ## No line waits, none is lost -/

variable [DecidableEq ι]

omit [DecidableEq ι] in
/-- A thread that waits in the queue is in `pop`. -/
theorem Sound.popping (h : Sound s) {call : BlockQueue.Call Line}
    (hp : s.que.place p = .within call .parked) : s.place p = .popping := by
  have hfits := h.fits p
  rw [hp] at hfits
  exact hfits.popping.1

omit [DecidableEq ι] in
/-- It does not hold `_m`. -/
theorem Sound.not_parked (h : Sound s) (hp : (s.place p).holds = true)
    (call : BlockQueue.Call Line) : s.que.place p ≠ .within call .parked := by
  intro hparked
  rw [h.popping hparked] at hp
  cases hp

omit [DecidableEq ι] in
/-- Nor does any thread wait there but the write thread. -/
theorem Sound.write_not_parked (h : Sound s) (i : ι) (call : BlockQueue.Call Line) :
    s.que.place (some i) ≠ .within call .parked :=
  fun hparked => h.apart i (h.popping hparked)

omit [DecidableEq ι] in
/-- A line that was handed over is in one place, and there once. -/
theorem Account.count_eq_one (h : Account s) (hline : line ∈ s.handed) :
    s.que.queue.q.count line + (s.place none).hand.count line + s.file.count line = 1 := by
  have hone := List.count_eq_one_of_mem h.nodup hline
  rw [State.handed, State.waiting, List.count_append, List.count_append] at hone
  omega

/-- **A `write` goes through** where there is a vector and the queue has room, if nobody else makes
a step. -/
theorem exists_returned (hc : Clears abi) (h : (machine ι abi).Reach s) {i : ι} {r : Record}
    {buf : Buffer} (hi : s.place (some i) = .arriving r) (hfree : s.holder = none)
    (hque : s.hasQue = true) (hroom : s.que.queue.q.length < s.que.queue.capacity)
    (hline : writeLine r.now r.level r.msg s.buf = .ok buf) (hok : buf.Ok) (hb : buf.buf ≠ []) :
    ∃ s', (machine ι abi).Reach s' ∧
      s'.que.queue.q = s.que.queue.q ++ [⟨s.sections, buf.readable⟩] ∧
      s'.returned = s.returned ++ [⟨s.sections, buf.readable⟩] ∧ s'.file = s.file := by
  have hself : ∀ {a : Place} {f : Option ι → Place}, Function.update f (some i) a (some i) = a :=
    Function.update_self ..
  have h₁ : (machine ι abi).Reach _ :=
    .step (o := .lock i) h ⟨⟨r, hi⟩, hfree⟩ (exec_lock abi hi hline)
  have h₂ : (machine ι abi).Reach _ :=
    .step (o := .test i) h₁ ⟨_, hself⟩ (exec_test abi hself hque hroom hok hb)
  obtain ⟨target, htarget⟩ := (BlockQueue.cond true).exists_picks
    (s.que.goto (some i) (.within (.push ⟨s.sections, buf.readable⟩) .fresh)).place
  have h₃ : (machine ι abi).Reach _ := .step (o := .push i target) h₂
    ⟨⟨_, hself⟩, _, _, goto_self, nofun, htarget⟩ ((Sound.reach hc h₂).exec_push abi hself target)
  have h₄ : (machine ι abi).Reach _ := .step (o := .clear i) h₃ ⟨_, hself⟩ (exec_clear abi hself)
  have h₅ : (machine ι abi).Reach _ := .step (o := .unlock i) h₄ ⟨_, hself⟩ (exec_unlock abi hself)
  exact ⟨_, h₅, rfl, rfl, rfl⟩

/-- One line, on a platform whose zeros reach over the members. -/
theorem reach_returned : ∃ s : State Unit, (machine Unit (wiped .null)).Reach s ∧
    s.returned = [⟨0, stamp noon ++ title 1 ++ str "a" ++ str "\n"⟩] ∧
    s.que.queue.q = s.returned ∧ s.file = [] := by
  have hlen : (Buffer.new 1024).buf.length = 1024 := List.length_replicate
  have hnew : (Buffer.new 1024).Ok := Buffer.new_ok (by decide)
  obtain ⟨buf, hline, hok, hread⟩ := @writeLine_eq noon 1 (str "a") _ hnew
    (by rw [hlen]; decide) (by rw [hlen]; decide +kernel) ⟨by decide, .inl (by decide +kernel)⟩
  rw [Buffer.readable_new, List.nil_append] at hread
  have hfull : 1024 ≤ buf.buf.length :=
    hlen.symm.trans_le (writeLine_length hnew (by rw [hlen]; decide) hline)
  have h₁ : (machine Unit (wiped .null)).Reach _ :=
    .step (o := .enter () ⟨noon, 1, str "a"⟩ false) (.init ⟨1, by decide, rfl⟩) rfl rfl
  obtain ⟨s, h, hq, hreturned, hfile⟩ := exists_returned wipes_wiped.toClears h₁ (i := ())
    (r := ⟨noon, 1, str "a"⟩) rfl rfl rfl Nat.one_pos hline hok
    (List.length_pos_iff.mp ((by decide : 0 < 1024).trans_le hfull))
  rw [hread] at hq hreturned
  exact ⟨s, h, hreturned, hq.trans hreturned.symm, hfile⟩

/-- **No push of `write` waits, and no line is lost or doubled**, whatever `memset` leaves of the
log.  A thread in `push` finds room, its turn is the last it makes there, and its line goes to the
end of the queue; nobody waits while he holds `_m`, and no `write` waits in the queue at all.  The
line of a `write` that has returned is in the queue, in the hands of the write thread or in the
file, in one of them and there once; and no two `write`s have returned with one line, nor was any
line written twice. -/
theorem lines_kept (hc : Clears abi) (h : (machine ι abi).Reach s) :
    (∀ i line target, s.place (some i) = .pushing line →
      s.que.queue.full = false ∧ ∃ s', exec abi s (.push i target) = .ok s' ∧
        s'.place (some i) = .clearing line ∧ s'.que.queue.q = s.que.queue.q ++ [line]) ∧
    (∀ p call, s.holder = some p → s.que.place p ≠ .within call .parked) ∧
    (∀ i call, s.que.place (some i) ≠ .within call .parked) ∧
    (∀ line ∈ s.returned,
      s.que.queue.q.count line + (s.place none).hand.count line + s.file.count line = 1) ∧
    s.returned.Nodup ∧ s.file.Nodup := by
  have hs : Sound s := .reach hc h
  have hlines : Account s := .reach hc h
  refine ⟨fun i line target hi => ?_, fun p call hp => hs.not_parked (hs.kept.held p hp) call,
    hs.write_not_parked, fun line hline => hlines.count_eq_one (hlines.returned line hline),
    hlines.once, ?_⟩
  · refine ⟨?_, _, hs.exec_push abi hi target, Function.update_self .., rfl⟩
    rw [BlockQueue.full, decide_eq_false_iff_not, not_le]
    exact hs.room _ _ hi
  · exact (List.nodup_append.mp hlines.nodup).1

/-- A `write` has returned, and the write thread has not come to its line yet. -/
theorem lines_kept_queued : ∃ s : State Unit,
    s.returned = [⟨0, stamp noon ++ title 1 ++ str "a" ++ str "\n"⟩] ∧ ∀ line ∈ s.returned,
      s.que.queue.q.count line + (s.place none).hand.count line + s.file.count line = 1 := by
  obtain ⟨s, h, hreturned, -⟩ := reach_returned
  exact ⟨s, hreturned, (lines_kept wipes_wiped.toClears h).2.2.2.1⟩

/-! ## With a vector that does not outlive its line -/

/-- It has a line in `_buf`, which `retrieveAll` is still to clear. -/
def Place.fills : Place → Bool
  | .testing _ | .direct _ | .clearing _ => true
  | _ => false

theorem Place.holds_of_fills (h : a.fills = true) : a.holds = true := by
  cases a with
  | testing | direct | clearing => rfl
  | _ => cases h

/-- **How far the first line is.** -/
inductive First (s : State ι) : Prop
  | unmade (hbuf : s.buf = .new 1024) (hsections : s.sections = 0)
  | made (hbuf : 1024 ≤ s.buf.buf.length) (hsections : s.sections = 1) {p : Option ι}
      (hp : (s.place p).fills = true)
  | cleared (hbuf : s.buf.buf = []) (hsections : s.sections = 1)

namespace First

omit [DecidableEq ι]

/-- **`retrieveAll` of the first line leaves no vector.** -/
theorem clear (hc : Clears abi) (hv : Voids abi fun g => g.buf) (h : First s)
    (hmade : 0 < s.sections) : (s.cleared abi).buf.buf = [] ∧ s.sections = 1 := by
  cases h with
  | unmade hbuf hsections => exact absurd hsections hmade.ne'
  | made hbuf hsections => exact ⟨hv _ _ hbuf, hsections⟩
  | cleared hbuf hsections =>
    refine ⟨?_, hsections⟩
    obtain hsame | ⟨hb, -⟩ := cleared_cases hc s
    · rw [hsame, hbuf]
    · exact absurd hbuf hb

variable [DecidableEq ι]

/-- A step of one thread that leaves `_buf` as it is. -/
theorem moves (h : First s) (hplace : s'.place = Function.update s.place p a)
    (hbuf : s'.buf = s.buf) (hsections : s'.sections = s.sections)
    (ha : (s.place p).fills = true → a.fills = true) : First s' := by
  cases h with
  | unmade hnew hnone => exact .unmade (hbuf.trans hnew) (hsections.trans hnone)
  | @made hfull hone j hj =>
    refine .made (hbuf ▸ hfull) (hsections.trans hone) (p := j) ?_
    rw [hplace]
    obtain rfl | hne := eq_or_ne j p
    · rw [Function.update_self]
      exact ha hj
    · rwa [Function.update_of_ne hne]
  | cleared hnull hone => exact .cleared (hbuf ▸ hnull) (hsections.trans hone)

/-- **No second line is made.** -/
theorem step (hc : Clears abi) (hv : Voids abi fun g => g.buf) (h : First s) (hs : Sound s)
    (hlines : Account s) {o : Op ι} (hd : Does abi s o s') : First s' := by
  cases hd with
  | @lock i r buf hi hfree hline =>
    have hb := ne_nil_of_writeLine hline
    cases h with
    | unmade hnew hnone =>
      rw [hnew] at hline
      refine .made ?_ (congrArg (· + 1) hnone) (p := some i) ?_
      · exact le_of_eq_of_le List.length_replicate.symm (writeLine_length
          (Buffer.new_ok (by decide)) (by rw [Buffer.new, List.length_replicate]; decide) hline)
      · show (Function.update s.place (some i) (.testing s.sections) (some i)).fills = true
        rw [Function.update_self]
        rfl
    | made hfull hone hp =>
      -- Whoever has made the line holds `_m`.
      have hholder := (hs.kept.owns hb _).mp (Place.holds_of_fills hp)
      cases hfree.symm.trans hholder
    | cleared hnull => exact absurd hnull hb
  | @room i no text hi =>
    have hmade := (hlines.buffered (some i) no (by rw [hi]; exact List.mem_singleton_self _)).1
    obtain ⟨hnull, hone⟩ := h.clear hc hv (Nat.zero_lt_of_lt hmade)
    exact .cleared hnull hone
  | @clear i line hi =>
    have hsent := (hlines.sent (some i) line (by rw [hi]; exact List.mem_singleton_self _)).1
    obtain ⟨hnull, hone⟩ := h.clear hc hv (Nat.zero_lt_of_lt (hlines.numbered line hsent))
    exact .cleared hnull hone
  | flush | wake | waits => exact h.moves (p := none) (Function.update_eq_self ..).symm rfl rfl id
  | enter hi | lockRotation hi | reopen hi | full hi | fputs hi | unlock hi | callPop hi
  | takes hi | lockThread hi | fputsThread hi | unlockThread hi =>
    refine h.moves rfl rfl rfl fun hfills => ?_
    rw [hi] at hfills
    first | rfl | cases hfills
  | @push i line target hi =>
    refine h.moves rfl rfl rfl fun hfills => ?_
    rw [hi] at hfills
    cases hfills

theorem reach (hc : Clears abi) (hv : Voids abi fun g => g.buf) (h : (machine ι abi).Reach s) :
    First s := by
  induction h with
  | init hs =>
    obtain ⟨capacity, -, rfl⟩ := hs
    exact .unmade rfl rfl
  | step hs hl he ih =>
    have hsound := Sound.reach hc hs
    exact ih.step hc hv hsound (.reach hc hs) (hsound.does hl he)

end First

end Log

end WebServer
