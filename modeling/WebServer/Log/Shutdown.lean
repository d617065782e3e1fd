import WebServer.Log.Destructor
import WebServer.Log.Wiped

/-!
# Log/Shutdown — how the destructor ends, and how it does not

Where neither the destructor nor the write thread has a step to make, the destructor has ended or it
hangs in `join`.  It loses no line either way.  It hangs when the write thread was busy at the
notification of `close`, and that can happen if the thread is busy, or has a line to fetch, when the
destructor starts.  All this is about a log whose members no `memset` has nulled; one whose members
are gone is left as it is (`exit_skips`).
-/

namespace WebServer

namespace Log

namespace Exit

variable {ι : Type} [DecidableEq ι] {abi : Abi (Guarded (Option ι))} {s s' : State ι}
  {o : Log.Op ι} {d : ι} {log : State ι} {lines : List Line} {t t' : Exit ι} {op : Op ι}

/-! ## Runs -/

/-- A log that a run has come to, with nobody in `write` and all that `init` made. -/
structure Left (abi : Abi (Guarded (Option ι))) (log : State ι) : Prop where
  reach : (Log.machine ι abi).Reach log
  idle : ∀ i, log.place (some i) = .idle
  whole : log.hasFp = true ∧ log.hasQue = true ∧ log.hasThread = true

theorem Left.winding (hc : Clears abi) (h : Left abi log) (d : ι) :
    Winding d log.handed ⟨log, .starting, false⟩ := by
  have hsound : Sound log := .reach hc h.reach
  have htended : Tended log := .reach hc h.reach
  have hplace : ∀ i, ∃ ret, log.que.place (some i) = .idle ret := fun i =>
    hsound.fits_of (h.idle i)
  have hpart := htended.parts none
  refine ⟨⟨h.idle, fun i c stage hi => ?_, hsound.fits none, ?_, hsound.kept.held, h.whole,
    htended.fed⟩, rfl, hplace d, ?_, by simp [Phase.rank], fun hdone => ?_, by simp [Phase.rank],
    by simp [Phase.rank]⟩
  · obtain ⟨ret, hret⟩ := hplace i
    cases hret.symm.trans hi
  · rw [hpart]
    simp
  · rw [hsound.opened]
    simp [Phase.rank]
  · rw [hdone] at hpart
    cases hpart

theorem Left.start (_ : Left abi log) (d : ι) :
    (machine abi d log).Reach ⟨log, .starting, false⟩ :=
  .init rfl

/-- What the log has been given is what the `write`s that have returned gave it. -/
theorem Left.handed (hc : Clears abi) (h : Left abi log) : log.handed.Perm log.returned := by
  have htended : Tended log := .reach hc h.reach
  have hlines : Account log := .reach hc h.reach
  refine (List.perm_ext_iff_of_nodup hlines.nodup hlines.once).mpr fun line =>
    ⟨fun hline => (htended.backed line hline).resolve_right ?_, hlines.returned line⟩
  rintro ⟨p, hp⟩
  cases p with
  | none =>
    have hpart := htended.parts none
    cases hplace : log.place none with
    | clearing | leaving =>
      rw [hplace] at hpart
      cases hpart
    | _ =>
      rw [hplace] at hp
      cases hp
  | some i =>
    rw [h.idle i] at hp
    cases hp

theorem settles (abi : Abi (Guarded (Option ι))) (d : ι) (log : State ι) (lines : List Line) :
    (machine abi d log).Settles (Winding d lines) effort cost where
  step _ _ h hl := h.step abi hl

theorem Left.reach_winding (hc : Clears abi) (h : Left abi log)
    (ht : (machine abi d log).Reach t) : Winding d log.handed t := by
  refine ht.invariant (fun _ hinit => hinit ▸ h.winding hc d) fun t op t' hw hl he => ?_
  obtain ⟨t'', he', hw', -⟩ := hw.step abi hl
  exact Except.ok.inj (he'.symm.trans he) ▸ hw'

/-! ### Rest -/

omit [DecidableEq ι] in
theorem Beside.holder (h : Beside s) (hfree : (s.place none).holds = false) : s.holder = none := by
  cases hholder : s.holder with
  | none => rfl
  | some p =>
    have hholds := h.held p hholder
    cases p with
    | none =>
      rw [hfree] at hholds
      cases hholds
    | some i =>
      rw [h.callers i] at hholds
      cases hholds

omit [DecidableEq ι] in
/-- **A write thread without a step to make** has ended, or is parked. -/
theorem Beside.still (h : Beside s)
    (hstill : ∀ o, ofThread o → cost (.thread o) = 0 → ¬ Log.Legal s o) :
    s.place none = .done ∨ s.que.place none = .within .pop .parked := by
  have hfits := h.fits
  have hpart := h.part
  cases hp : s.place none with
  | done => exact .inl rfl
  | popping =>
    rw [hp] at hfits
    obtain ⟨stage, hplace⟩ := hfits
    by_cases hstage : stage = .parked
    · exact .inr (hstage ▸ hplace)
    · obtain ⟨target, htarget⟩ := (BlockQueue.cond false).exists_picks s.que.place
      exact absurd ⟨hp, _, _, hplace, hstage, htarget⟩ (hstill (.pop target) trivial rfl)
  | looping => exact absurd hp (hstill .callPop trivial rfl)
  | holding line =>
    have hholder := h.holder (by rw [hp]; rfl)
    exact absurd ⟨⟨line, hp⟩, hholder⟩ (hstill .lockThread trivial rfl)
  | writing line => exact absurd ⟨line, hp⟩ (hstill .fputsThread trivial rfl)
  | written => exact absurd hp (hstill .unlockThread trivial rfl)
  | _ =>
    rw [hp] at hpart
    exact absurd rfl hpart

/-- **At rest the destructor has ended, or hangs.** -/
theorem Winding.rest (h : Winding d lines t)
    (hrest : (machine abi d log).Rests cost t) : t.phase = .ended ∨ Hangs t := by
  have hno : ∀ op, cost op = 0 → ¬ Legal d t op := fun op hfree hl => hrest op hl hfree
  have hthread := h.beside.still fun o ho hfree hl => hno (.thread o) hfree ⟨ho, hl⟩
  obtain ⟨target, htarget⟩ := (BlockQueue.cond true).exists_picks t.log.que.place
  have hplace := h.destroyer
  have hended := h.ended
  cases hphase : t.phase with
  | ended => exact .inl rfl
  | starting => exact absurd ⟨hphase, rfl⟩ (hno (.finds t.log.hasThread) rfl)
  | polling =>
    rw [hphase] at hended
    obtain hdone | hparked := hthread
    · exact absurd (hended hdone) (by simp [Phase.rank])
    · have hq := h.beside.fed hparked
      exact absurd ⟨hphase, by rw [BlockQueue.empty, hq]; rfl⟩ (hno (.sees true) rfl)
  | flushing => exact absurd ⟨hphase, htarget⟩ (hno (.flush target) rfl)
  | closing =>
    rw [hphase] at hplace
    exact absurd ⟨hphase, hplace⟩ (hno .close rfl)
  | notifying =>
    rw [hphase] at hplace
    exact absurd ⟨hphase, hplace⟩ (hno .notifyConsumers rfl)
  | notifyingProducers =>
    rw [hphase] at hplace
    exact absurd ⟨hphase, hplace⟩ (hno .notifyProducers rfl)
  | joining =>
    have hrunning : t.log.place none ≠ .done := fun hdone => hno .join rfl ⟨hphase, hdone⟩
    have hparked := hthread.resolve_left hrunning
    refine .inr ⟨hphase, hparked, ?_⟩
    by_contra hmissed
    obtain hdone | ⟨c, stage, hheard, hstage⟩ :=
      h.heard (by rw [hphase]; simp [Phase.rank]) (by simpa using hmissed)
    · exact hrunning hdone
    · cases hheard.symm.trans hparked
      obtain hstage | hstage := hstage <;> cases hstage
  | joined =>
    have hdone := h.joined (by rw [hphase]; simp [Phase.rank])
    have hholder := h.beside.holder (by rw [hdone]; rfl)
    exact absurd ⟨hphase, h.beside.whole.1, hholder, htarget⟩ (hno (.closeFile target) rfl)

/-- **The destructor loses no line.**  In a log with nobody in `write` and all that `init` made, no
step of it or of the write thread fails; once it has joined the write thread, the file holds the
lines of the `write`s that have returned, each once; a run has no more steps than `effort` at its
start, and what rounds of polling and spurious wake-ups add; and where none but these can come, the
destructor has ended, or it hangs: the write thread missed the notification and is parked. -/
theorem exit_settles (hc : Clears abi) (h : Left abi log) (ht : (machine abi d log).Reach t) :
    (∀ op, Legal d t op → ∃ t', exec abi d t op = .ok t') ∧
    (t.phase = .joined ∨ t.phase = .ended → t.log.file.Perm log.returned) ∧
    (∀ ops t', (machine abi d log).Runs t ops t' →
      ops.length ≤ t.effort + (ops.map cost).sum) ∧
    ((machine abi d log).Rests cost t → t.phase = .ended ∨ t.Hangs) := by
  have hw := h.reach_winding hc ht
  refine ⟨fun op hl => ?_, fun hphase => ?_, fun ops t' hruns => ?_, hw.rest⟩
  · obtain ⟨t', he, -⟩ := hw.step abi hl
    exact ⟨t', he⟩
  · have hrank : Phase.rank t.phase ≤ 1 := by
      obtain hphase | hphase := hphase <;> rw [hphase] <;> simp [Phase.rank]
    have hfile : t.log.file = log.handed := by
      have hhanded := hw.handed
      rw [State.handed, State.waiting, hw.joined hrank, hw.emptied (hrank.trans (by decide))]
        at hhanded
      simpa [Place.hand] using hhanded
    exact hfile ▸ h.handed hc
  · exact (Nat.le_add_right _ _).trans ((settles abi d log log.handed).length_le hw hruns)

/-- A log that has written nothing: the write thread gets to its wait before the queue is closed. -/
theorem exit_settles_ended : ∃ (log : State Unit) (t : Exit Unit), log.place none = .looping ∧
    t.phase = .ended ∧ t.log.file.Perm log.returned := by
  have hleft : Left (wiped .null) (State.new 1 : State Unit) :=
    ⟨.init ⟨1, by decide, rfl⟩, fun _ => rfl, rfl, rfl, rfl⟩
  have h₁ : (machine (wiped .null) () _).Reach _ :=
    .step (o := .thread .callPop) (hleft.start ()) ⟨trivial, rfl⟩ rfl
  have h₂ : (machine (wiped .null) () _).Reach _ := .step (o := .thread (.pop none)) h₁
    ⟨trivial, rfl, _, _, rfl, by decide, by decide⟩ rfl
  have h₃ : (machine (wiped .null) () _).Reach _ := .step (o := .finds true) h₂ ⟨rfl, rfl⟩ rfl
  have h₄ : (machine (wiped .null) () _).Reach _ := .step (o := .sees true) h₃ ⟨rfl, rfl⟩ rfl
  have h₅ : (machine (wiped .null) () _).Reach _ := .step (o := .close) h₄ ⟨rfl, _, rfl⟩ rfl
  have h₆ : (machine (wiped .null) () _).Reach _ :=
    .step (o := .notifyConsumers) h₅ ⟨rfl, rfl⟩ rfl
  have h₇ : (machine (wiped .null) () _).Reach _ :=
    .step (o := .notifyProducers) h₆ ⟨rfl, rfl⟩ rfl
  have h₈ : (machine (wiped .null) () _).Reach _ := .step (o := .thread (.pop none)) h₇
    ⟨trivial, rfl, _, _, rfl, by decide, by decide⟩ rfl
  have h₉ : (machine (wiped .null) () _).Reach _ := .step (o := .join) h₈ ⟨rfl, rfl⟩ rfl
  have h₁₀ : (machine (wiped .null) () _).Reach _ := .step (o := .closeFile none) h₉
    ⟨rfl, rfl, rfl, by show (BlockQueue.cond true).Picks _ none; decide⟩ rfl
  exact ⟨_, _, rfl, rfl, (exit_settles wipes_wiped.toClears hleft h₁₀).2.1 (.inr rfl)⟩

/-- No wait ends without a notification. -/
def Unwoken (_ : Exit ι) : Op ι → Prop
  | .thread (.wake _) => False
  | _ => True

/-- **What a missed notification leaves**: a write thread that goes on, or is parked for good. -/
structure Deaf (t : Exit ι) : Prop where
  late : Phase.rank t.phase ≤ 3
  running : t.log.place none ≠ .done
  unheard : ∀ c stage, t.log.que.place none = .within c stage → stage = .fresh ∨ stage = .parked

/-- The write thread stays so. -/
theorem Deaf.thread (h : Deaf t) (ht : Turns t.log o s') (ho : ∀ p, o ≠ .wake p) :
    Deaf { t with log := s' } := by
  cases ht with
  | callPop => exact ⟨h.late, nofun, fun c stage hplace => by cases hplace; exact .inl rfl⟩
  | waits hp =>
    exact ⟨h.late, by rw [hp]; nofun, fun c stage hplace => by cases hplace; exact .inr rfl⟩
  | takes => exact ⟨h.late, nofun, nofun⟩
  | denied hp hplace hstage hagain =>
    obtain hfresh | hparked := h.unheard _ _ hplace
    · exact absurd hfresh hagain
    · exact absurd hparked hstage
  | lockThread | fputsThread | unlockThread => exact ⟨h.late, nofun, h.unheard⟩
  | wake => exact absurd rfl (ho none)

omit [DecidableEq ι] in
/-- A busy thread does not hear the notification. -/
theorem unheard_of_busy (h : Beside s) (hbusy : s.busy = true) : s.place none ≠ .done ∧
    ∀ c stage, (BlockQueue.cond true).notifyAll s.que.place none = .within c stage →
      stage = .fresh ∨ stage = .parked := by
  have hdone : s.place none ≠ .done := fun hdone => by simp [State.busy, hdone] at hbusy
  have hwaits : waits (s.que.place none) = false := by simpa [State.busy, hdone] using hbusy
  refine ⟨hdone, fun c stage hafter => ?_⟩
  have hwait : (BlockQueue.cond true).wait (s.que.place none) ≠ .parked := by
    intro hwait
    rw [Stirs.parked_of_wait h hwait] at hwaits
    cases hwaits
  rw [CondVar.notifyAll_eq hwait] at hafter
  rw [hafter] at hwaits
  cases stage with
  | fresh => exact .inl rfl
  | _ => cases hwaits

/-- **Who misses the notification does not hear it later.** -/
theorem Deaf.step (h : Deaf t) (hw : Winding d lines t) (hl : Legal d t op) (hop : Unwoken t op)
    (he : exec abi d t op = .ok t') : Deaf t' := by
  have hlate : ∀ {phase}, t.phase = phase → 3 < Phase.rank phase → False := by
    rintro _ rfl hrank
    exact absurd h.late (not_le.mpr hrank)
  have hrunning := h.running
  cases op with
  | thread o =>
    obtain ⟨s', he', ht⟩ := hw.beside.turns abi hl.1 hl.2
    simp only [exec, he', ok_bind, pure_eq_ok] at he
    obtain rfl := Except.ok.inj he
    refine h.thread ht fun p hp => ?_
    subst hp
    exact hop
  | finds | sees | flush | close | notifyConsumers => exact (hlate hl.1 (by decide)).elim
  | notifyProducers =>
    obtain ⟨que, heq, rfl⟩ := of_inQueue he
    obtain rfl := Except.ok.inj heq
    refine ⟨by simp [Phase.rank], hrunning, fun c stage hplace => h.unheard c stage ?_⟩
    exact (Stirs.notifyAll_producers hw.beside).symm.trans hplace
  | join => exact absurd hl.2 hrunning
  | closeFile | skipFile =>
    exact absurd (hw.joined (by rw [hl.1]; simp [Phase.rank])) hrunning

/-- The notification is missed by a thread that is busy then. -/
theorem deaf_of_busy (hw : Winding d lines t) (he : exec abi d t .notifyConsumers = .ok t')
    (hbusy : t.log.busy = true) : Deaf t' := by
  obtain ⟨que, heq, rfl⟩ := of_inQueue he
  obtain rfl := Except.ok.inj heq
  obtain ⟨hrunning, hunheard⟩ := unheard_of_busy hw.beside hbusy
  exact ⟨le_rfl, hrunning, hunheard⟩

/-- But for the notification of the consumers, no step says who missed it. -/
theorem missed_eq (he : exec abi d t op = .ok t') (hop : op ≠ .notifyConsumers) :
    t'.missed = t.missed := by
  have hsame : ∀ {o phase}, t.inQueue o phase = .ok t' → t'.missed = t.missed := by
    intro o phase he
    obtain ⟨que, -, rfl⟩ := of_inQueue he
    rfl
  cases op with
  | notifyConsumers => exact absurd rfl hop
  | thread o =>
    obtain ⟨s', -, he⟩ := bind_eq_ok.mp he
    obtain rfl := Except.ok.inj he
    rfl
  | join =>
    obtain ⟨u, -, he⟩ := bind_eq_ok.mp he
    obtain rfl := Except.ok.inj he
    rfl
  | finds | skipFile =>
    obtain rfl := Except.ok.inj he
    rfl
  | sees | flush | close | notifyProducers | closeFile => exact hsame he

theorem deaf_of_missed (h : t.missed = true → Deaf t) (hw : Winding d lines t)
    (hl : Legal d t op) (hop : Unwoken t op) (he : exec abi d t op = .ok t') :
    t'.missed = true → Deaf t' := by
  intro hmissed
  by_cases hnotify : op = .notifyConsumers
  · subst hnotify
    refine deaf_of_busy hw he ?_
    obtain ⟨que, -, rfl⟩ := of_inQueue he
    exact hmissed
  · exact (h ((missed_eq he hnotify).symm.trans hmissed)).step hw hl hop he

/-- **A destructor whose notification was missed does not end**, without a spurious wake-up. -/
theorem Left.deaf (hc : Clears abi) (h : Left abi log)
    (ht : ((machine abi d log).restrict Unwoken).Reach t) (hmissed : t.missed = true) : Deaf t := by
  refine (ht.invariant (I := fun t => Winding d log.handed t ∧ (t.missed = true → Deaf t))
    (fun t hinit => ?_) fun t op t' ht hl he => ?_).2 hmissed
  · subst hinit
    exact ⟨h.winding hc d, nofun⟩
  · obtain ⟨t'', he', hw', -⟩ := ht.1.step abi hl.1
    exact ⟨Except.ok.inj (he'.symm.trans he) ▸ hw', deaf_of_missed ht.2 ht.1 hl.1 hl.2 he⟩

theorem Deaf.settles (abi : Abi (Guarded (Option ι))) (d : ι) (log : State ι)
    (lines : List Line) : ((machine abi d log).restrict Unwoken).Settles
      (fun t => Winding d lines t ∧ Deaf t) effort cost where
  step t op h hl := by
    obtain ⟨t', he, hw', hlt⟩ := h.1.step abi hl.1
    exact ⟨t', he, ⟨hw', h.2.step h.1 hl.1 hl.2 he⟩, hlt⟩

/-! ### The notification that is heard -/

omit [DecidableEq ι] in
/-- The write thread waits, or has ended. -/
theorem busy_eq_false_iff : s.busy = false ↔
    s.place none = .done ∨ waits (s.que.place none) = true := by
  simp [State.busy, or_iff_not_imp_left]

/-- A thread that waits beside an empty queue goes on waiting, or ends. -/
theorem Turns.not_busy (ht : Turns s o s') (h : Beside s) (hbusy : s.busy = false)
    (hq : s.que.queue.q = []) : s'.busy = false := by
  have hwaits := (busy_eq_false_iff.mp hbusy).resolve_left ht.ends.1
  rw [busy_eq_false_iff]
  -- Outside `pop` it is not in the queue.
  have hout : ∀ {a : Place}, s.place none = a → (∃ ret, s.que.place none = .idle ret) → False := by
    rintro a - ⟨ret, hret⟩
    rw [hret] at hwaits
    cases hwaits
  have hfits := h.fits
  cases ht with
  | waits | wake =>
    refine .inr ?_
    rw [goto_self]
    rfl
  | takes hp hplace hstage hopen hcons =>
    rw [hq] at hcons
    cases hcons
  | denied =>
    refine .inl ?_
    show Function.update s.place none .done none = .done
    rw [Function.update_self]
  | callPop hp | lockThread hp | fputsThread hp | unlockThread hp =>
    rw [hp] at hfits
    exact (hout hp hfits).elim

/-- **A notification that will be heard**: the write thread waits beside an empty queue until it
comes. -/
structure Hearing (t : Exit ι) : Prop where
  heard : t.missed = false
  waiting : 3 < Phase.rank t.phase → t.log.busy = false ∧ t.log.que.queue.q = []

theorem Hearing.step (h : Hearing t) (hw : Winding d lines t) (hl : Legal d t op)
    (he : exec abi d t op = .ok t') : Hearing t' := by
  -- A step of the destructor in the queue leaves a waiting thread in its wait.
  have hstirs : ∀ {que : BlockQueue.State (Option ι) Line}, Stirs t.log que →
      t.log.busy = false ∧ t.log.que.queue.q = [] →
      State.busy { t.log with que := que } = false ∧ que.queue.q = [] := by
    intro que hq hwaiting
    refine ⟨?_, hq.same.trans hwaiting.2⟩
    rw [busy_eq_false_iff]
    obtain hdone | hwaits := busy_eq_false_iff.mp hwaiting.1
    · exact .inl hdone
    · obtain hsame | ⟨-, hafter⟩ := hq.thread
      · exact .inr ((congrArg waits hsame).trans hwaits)
      · exact .inr (congrArg waits hafter)
  have hearly : ∀ {phase}, t.phase = phase → 3 < Phase.rank phase →
      t.log.busy = false ∧ t.log.que.queue.q = [] := by
    rintro _ rfl hrank
    exact h.waiting hrank
  by_cases hnotify : op = .notifyConsumers
  · subst hnotify
    obtain ⟨que, -, rfl⟩ := of_inQueue he
    exact ⟨(hearly hl.1 (by decide)).1, fun hrank => absurd hrank (by simp [Phase.rank])⟩
  refine ⟨(missed_eq he hnotify).trans h.heard, ?_⟩
  cases op with
  | notifyConsumers => exact absurd rfl hnotify
  | thread o =>
    obtain ⟨s', he', ht⟩ := hw.beside.turns abi hl.1 hl.2
    simp only [exec, he', ok_bind, pure_eq_ok] at he
    obtain rfl := Except.ok.inj he
    intro hrank
    obtain ⟨hbusy, hq⟩ := h.waiting hrank
    exact ⟨ht.not_busy hw.beside hbusy hq, ht.queue.2 hq⟩
  | finds running =>
    obtain rfl := Except.ok.inj he
    exact fun _ => hearly hl.1 (by decide)
  | sees empty =>
    obtain ⟨que, heq, rfl⟩ := of_inQueue he
    obtain rfl := Except.ok.inj heq
    exact fun _ => hearly hl.1 (by decide)
  | flush target =>
    obtain ⟨que, heq, rfl⟩ := of_inQueue he
    obtain rfl := Except.ok.inj heq
    exact fun _ => hstirs (.flush hw.beside hl.2) (hearly hl.1 (by decide))
  | close =>
    obtain ⟨que, heq, rfl⟩ := of_inQueue he
    obtain rfl := Except.ok.inj heq
    exact fun _ => hstirs (.close hw.beside) (hearly hl.1 (by decide))
  | notifyProducers | closeFile =>
    obtain ⟨que, heq, rfl⟩ := of_inQueue he
    exact fun hrank => absurd hrank (by simp [Phase.rank])
  | join =>
    obtain ⟨u, -, he⟩ := bind_eq_ok.mp he
    obtain rfl := Except.ok.inj he
    exact fun hrank => absurd hrank (by simp [Phase.rank])
  | skipFile =>
    obtain rfl := Except.ok.inj he
    exact fun hrank => absurd hrank (by simp [Phase.rank])

theorem Left.hearing (hc : Clears abi) (h : Left abi log) (hbusy : log.busy = false)
    (hq : log.que.queue.q = []) (ht : (machine abi d log).Reach t) : Hearing t := by
  refine (ht.invariant (I := fun t => Winding d log.handed t ∧ Hearing t)
    (fun t hinit => ?_) fun t op t' ht hl he => ?_).2
  · subst hinit
    exact ⟨h.winding hc d, rfl, fun _ => ⟨hbusy, hq⟩⟩
  · obtain ⟨t'', he', hw', -⟩ := ht.1.step abi hl
    exact ⟨Except.ok.inj (he'.symm.trans he) ▸ hw', ht.2.step ht.1 hl he⟩

/-! ### A run that hangs -/

/-- The write thread makes a step, with a line in the queue. -/
def Fetches (t : Exit ι) (op : Op ι) : Prop :=
  (∃ o, op = .thread o) ∧ t.log.que.queue.q ≠ []

/-- A line is under way, and the destructor has not seen the queue empty. -/
structure Early (d : ι) (lines : List Line) (t : Exit ι) : Prop where
  winding : Winding d lines t
  phase : t.phase = .polling
  waiting : t.log.waiting ≠ []

theorem Early.settles (abi : Abi (Guarded (Option ι))) (d : ι) (log : State ι)
    (lines : List Line) :
    ((machine abi d log).restrict Fetches).Settles (Early d lines) effort cost where
  step t op h hl := by
    obtain ⟨hl, ⟨o, rfl⟩, hq⟩ := hl
    obtain ⟨s', he, ht⟩ := h.winding.beside.turns abi hl.1 hl.2
    have hpull := ht.pull h.winding.beside
    refine ⟨{ t with log := s' }, ?_, ⟨h.winding.thread ht, h.phase, ?_⟩, ?_⟩
    · show (Log.exec abi t.log o >>= _) = _
      rw [he]
      rfl
    · show s'.waiting ≠ []
      cases ht with
      | waits hp hplace hstage hopen hempty => exact absurd hempty hq
      | takes => simp [State.waiting, State.goto, Place.hand]
      | _ => exact List.append_ne_nil_of_right_ne_nil _ hq
    · show Phase.rank t.phase + pull s' < Phase.rank t.phase + pull t.log + Log.cost o
      omega

/-- **The write thread can be at the last line when the queue is seen to be empty.** -/
theorem Early.rest (h : Early d lines t)
    (hrest : ((machine abi d log).restrict Fetches).Rests cost t) :
    t.log.que.queue.q = [] ∧ t.log.busy = true := by
  have hq : t.log.que.queue.q = [] := by
    by_contra hq
    obtain hdone | hparked := h.winding.beside.still fun o ho hfree hl =>
      hrest (.thread o) ⟨⟨ho, hl⟩, ⟨o, rfl⟩, hq⟩ hfree
    · have hended := h.winding.ended hdone
      rw [h.phase] at hended
      simp [Phase.rank] at hended
    · exact hq (h.winding.beside.fed hparked)
  have hhand : (t.log.place none).hand ≠ [] := by
    have hwaiting := h.waiting
    rwa [State.waiting, hq, List.append_nil] at hwaiting
  have hfits := h.winding.beside.fits
  refine ⟨hq, ?_⟩
  cases hp : t.log.place none with
  | holding | writing =>
    rw [hp] at hfits
    obtain ⟨ret, hret⟩ := hfits
    simp [State.busy, hp, hret, waits]
  | _ =>
    rw [hp] at hhand
    exact absurd rfl hhand

/-- Once the queue is seen to be empty, `close` runs to its end, and a busy thread misses it. -/
theorem Winding.closes (hw : Winding d lines t) (abi : Abi (Guarded (Option ι))) (log : State ι)
    (hphase : t.phase = .polling) (hq : t.log.que.queue.q = []) (hbusy : t.log.busy = true) :
    ∃ t', (machine abi d log).Runs t [.sees true, .close, .notifyConsumers, .notifyProducers] t' ∧
      Winding d lines t' ∧ Deaf t' := by
  obtain ⟨s, phase, missed⟩ := t
  obtain rfl : phase = .polling := hphase
  have hsees : Legal d ⟨s, .polling, missed⟩ (.sees true) := by
    refine ⟨rfl, ?_⟩
    rw [BlockQueue.empty, hq]
    rfl
  obtain ⟨t₁, he₁, hw₁, -⟩ := hw.step abi hsees
  obtain ⟨que₁, heq₁, rfl⟩ := of_inQueue he₁
  obtain rfl := Except.ok.inj heq₁
  have hl₂ : Legal d _ .close := ⟨rfl, hw₁.destroyer⟩
  obtain ⟨t₂, he₂, hw₂, -⟩ := hw₁.step abi hl₂
  obtain ⟨que₂, heq₂, rfl⟩ := of_inQueue he₂
  obtain rfl := Except.ok.inj heq₂
  have hl₃ : Legal d _ .notifyConsumers := ⟨rfl, hw₂.destroyer⟩
  obtain ⟨t₃, he₃, hw₃, -⟩ := hw₂.step abi hl₃
  have hdeaf := deaf_of_busy hw₂ he₃ hbusy
  obtain ⟨que₃, heq₃, rfl⟩ := of_inQueue he₃
  obtain rfl := Except.ok.inj heq₃
  have hl₄ : Legal d _ .notifyProducers := ⟨rfl, hw₃.destroyer⟩
  obtain ⟨t₄, he₄, hw₄, -⟩ := hw₃.step abi hl₄
  refine ⟨t₄, ?_, hw₄, hdeaf.step hw₃ hl₄ trivial he₄⟩
  exact .cons (M := machine abi d log) hsees he₁ (.cons (M := machine abi d log) hl₂ he₂
    (.cons (M := machine abi d log) hl₃ he₃ (.cons (M := machine abi d log) hl₄ he₄ .nil)))

/-- A write thread that is busy, or has a line to fetch, can be at the last line when the queue is
seen to be empty. -/
theorem Winding.comes_busy (hw : Winding d lines t) (abi : Abi (Guarded (Option ι)))
    (log : State ι) (hphase : t.phase = .polling)
    (hstart : t.log.busy = true ∨ t.log.que.queue.q ≠ []) :
    ∃ ops t', (machine abi d log).Runs t ops t' ∧ (∀ op ∈ ops, cost op = 0) ∧
      Winding d lines t' ∧ t'.phase = .polling ∧ t'.log.que.queue.q = [] ∧
      t'.log.busy = true := by
  by_cases hq : t.log.que.queue.q = []
  · exact ⟨[], t, .nil, nofun, hw, hphase, hq, hstart.resolve_right (not_not.mpr hq)⟩
  · have hearly : Early d lines t := ⟨hw, hphase, List.append_ne_nil_of_right_ne_nil _ hq⟩
    obtain ⟨ops, t', hruns, hfree, hearly', hrest⟩ :=
      (Early.settles abi d log lines).exists_rest hearly
    obtain ⟨hq', hbusy⟩ := hearly'.rest hrest
    exact ⟨ops, t', hruns.of_restrict, hfree, hearly'.winding, hearly'.phase, hq', hbusy⟩

/-- **A missed notification leads to a hang**: the write thread is parked, and nothing is left to
wake it. -/
theorem Deaf.hangs (h : Deaf t) (hw : Winding d lines t) (abi : Abi (Guarded (Option ι)))
    (log : State ι) : ∃ ops t', (machine abi d log).Runs t ops t' ∧ (∀ op ∈ ops, cost op = 0) ∧
      (machine abi d log).Rests cost t' ∧ Hangs t' := by
  obtain ⟨ops, t', hruns, hfree, ⟨hw', hdeaf⟩, hrest⟩ :=
    (Deaf.settles abi d log lines).exists_rest ⟨hw, h⟩
  -- A spurious wake-up is the only step that this rest leaves out.
  have hrest' : (machine abi d log).Rests cost t' := by
    intro op hl
    by_cases hop : Unwoken t' op
    · exact hrest op ⟨hl, hop⟩
    · cases op with
      | thread o =>
        cases o with
        | wake p => exact two_ne_zero
        | _ => exact absurd trivial hop
      | _ => exact absurd trivial hop
  refine ⟨ops, t', hruns.of_restrict, hfree, hrest', ?_⟩
  refine (hw'.rest hrest').resolve_left fun hended => hdeaf.running (hw'.joined ?_)
  rw [hended]
  decide

/-- **The destructor may wait for ever.**  Without a spurious wake-up it does not end once the
notification is missed; and it can come to that by steps of its own and of the write thread if and
only if the write thread is busy, or has a line to fetch, when the destructor starts. -/
theorem exit_hangs (hc : Clears abi) (h : Left abi log) (d : ι) :
    (∀ t, ((machine abi d log).restrict Unwoken).Reach t → t.missed = true →
      t.phase ≠ .joined ∧ t.phase ≠ .ended) ∧
    ((∃ ops t, (machine abi d log).Runs ⟨log, .starting, false⟩ ops t ∧
        (∀ op ∈ ops, cost op = 0) ∧ (machine abi d log).Rests cost t ∧ Hangs t) ↔
      log.busy = true ∨ log.que.queue.q ≠ []) := by
  have hw := h.winding hc d
  refine ⟨fun t ht hmissed => ?_, ?_, fun hstart => ?_⟩
  · have hdeaf := h.deaf hc ht hmissed
    have hjoined := (h.reach_winding hc ht.of_restrict).joined
    constructor <;> intro hphase <;> exact hdeaf.running (hjoined (by rw [hphase]; decide))
  · rintro ⟨ops, t, hruns, -, -, hhangs⟩
    by_contra hnot
    obtain ⟨hbusy, hq⟩ := not_or.mp hnot
    have hhearing := h.hearing hc (Bool.not_eq_true _ ▸ hbusy) (not_not.mp hq)
      ((h.start d).runs hruns)
    cases hhearing.heard.symm.trans hhangs.missed
  · have hfinds : Legal d ⟨log, .starting, false⟩ (.finds true) := ⟨rfl, h.whole.2.2.symm⟩
    obtain ⟨t₁, he₁, hw₁, -⟩ := hw.step abi hfinds
    obtain rfl := Except.ok.inj he₁
    obtain ⟨ops₂, t₂, hruns₂, hfree₂, hw₂, hphase₂, hq₂, hbusy₂⟩ :=
      hw₁.comes_busy abi log rfl hstart
    obtain ⟨t₃, hruns₃, hw₃, hdeaf₃⟩ := hw₂.closes abi log hphase₂ hq₂ hbusy₂
    obtain ⟨ops₄, t₄, hruns₄, hfree₄, hrest₄, hhangs₄⟩ := hdeaf₃.hangs hw₃ abi log
    refine ⟨_, t₄, .cons (M := machine abi d log) (o := .finds true) hfinds he₁
      ((hruns₂.append hruns₃).append hruns₄), ?_, hrest₄, hhangs₄⟩
    simp only [List.mem_cons, List.mem_append, List.not_mem_nil, or_false]
    rintro op (rfl | (hop | rfl | rfl | rfl | rfl) | hop)
    · rfl
    · exact hfree₂ op hop
    · rfl
    · rfl
    · rfl
    · rfl
    · exact hfree₄ op hop

/-- The destructor of a log that has written nothing, before the write thread gets to its wait. -/
theorem exit_hangs_new : ∃ (ops : List (Op Unit)) (t : Exit Unit),
    (machine (wiped .null) () (State.new 1)).Runs ⟨.new 1, .starting, false⟩ ops t ∧ Hangs t := by
  have hleft : Left (wiped .null) (State.new 1 : State Unit) :=
    ⟨.init ⟨1, by decide, rfl⟩, fun _ => rfl, rfl, rfl, rfl⟩
  obtain ⟨ops, t, hruns, -, -, hhangs⟩ :=
    (exit_hangs wipes_wiped.toClears hleft ()).2.mpr (.inl rfl)
  exact ⟨ops, t, hruns, hhangs⟩

end Exit

end Log

end WebServer
