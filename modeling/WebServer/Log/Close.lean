import WebServer.Log.Queue

/-!
# Log/Close — what closing a queue releases, and what it loses

`push` and `pop` look at `_is_closed` only after a wait, and then before they look at the queue.  So
a thread that enters after `close` may still park, with nobody left to notify it
(`close_releases` is about the runs in which none does); and a consumer that was woken for an item
returns false with the item still there, if the queue has been closed meanwhile (`pop_denied` is
about the runs in which none is).
-/

namespace WebServer

namespace BlockQueue

variable {ι T : Type} {s s' : State ι T} {i : ι} {c : Call T} {stage : Stage} {expired : Bool}
  {target : Option ι} {side : Bool}

/-! ## Parking -/

/-- A `close` has notified the consumers, or the producers. -/
def State.freed (s : State ι T) (side : Bool) : Bool :=
  if side then s.consumersFreed else s.closeReturned

/-- Nobody enters who would have to wait after the notification of a `close`. -/
def Timely (s : State ι T) : Op ι T → Prop
  | .run i _ _ => ∀ c, s.place i = .within c .fresh → s.freed c.consumes = true →
    ¬ s.queue.Blocks c
  | _ => True

/-- What a `close` has done by the time it comes to a place. -/
def Place.Done (closed freed : Bool) : Place T → Prop
  | .closing => closed = true
  | .closingProducers => closed = true ∧ freed = true
  | _ => True

/-- **The invariant.** -/
structure Released (s : State ι T) : Prop where
  done : ∀ i, (s.place i).Done s.queue.isClosed s.consumersFreed
  closed : s.consumersFreed = true → s.queue.isClosed = true
  order : s.closeReturned = true → s.consumersFreed = true
  freed : ∀ side, s.freed side = true → ∀ i, (cond side).wait (s.place i) ≠ .parked

theorem Place.done_wake {closed freed : Bool} {place : Place T} (h : place.Done closed freed) :
    place.wake.Done closed freed := by
  cases place with
  | within => trivial
  | _ => exact h

theorem Place.Done.mono {closed freed closed' freed' : Bool} {place : Place T}
    (h : place.Done closed freed) (hc : closed = true → closed' = true)
    (hf : freed = true → freed' = true) : place.Done closed' freed' := by
  cases place with
  | closing => exact hc h
  | closingProducers => exact ⟨hc h.1, hf h.2⟩
  | _ => trivial

/-- Waking up is not parking. -/
theorem wait_wake_ne {side' : Bool} (place : Place T) :
    (cond side).wait ((cond side').wake place) ≠ .parked := by
  cases place with
  | within call stage =>
    show (if call.consumes = side then Wait.notified else .away) ≠ .parked
    split <;> exact Wait.noConfusion
  | _ => exact Wait.noConfusion

/-- **After a `close` has notified one side, nobody is parked there**, nor where nobody was. -/
theorem not_parked_notifyAll {place : ι → Place T} {side' : Bool}
    (h : side ≠ side' → ∀ i, (cond side).wait (place i) ≠ .parked) (i : ι) :
    (cond side).wait ((cond side').notifyAll place i) ≠ .parked := by
  obtain rfl | hne := eq_or_ne side side'
  · exact (cond side).not_parked_notifyAll place i
  · exact CondVar.notifyAll_forall (Q := fun p => (cond side).wait p ≠ .parked)
      (fun a _ => wait_wake_ne a) (h hne) i

theorem not_parked_notifyOne {place : ι → Place T} {side' : Bool} [DecidableEq ι]
    (h : ∀ i, (cond side).wait (place i) ≠ .parked) (i : ι) :
    (cond side).wait ((cond side').notifyOne place target i) ≠ .parked :=
  CondVar.notifyOne_forall (Q := fun p => (cond side).wait p ≠ .parked)
    (fun a _ => wait_wake_ne a) h i

namespace Released

theorem closed_of_freed (h : Released s) (hf : s.freed side = true) :
    s.queue.isClosed = true := by
  cases side with
  | true => exact h.closed hf
  | false => exact h.closed (h.order hf)

variable [DecidableEq ι]

theorem ran (h : Released s) (hi : s.place i = .within c stage)
    (htimely : stage = .fresh → s.freed c.consumes = true → ¬ s.queue.Blocks c)
    (hran : Ran s i stage expired target c s') : Released s' := by
  cases hran with
  | parks hopen hblocks =>
    refine ⟨Threads.update_forall h.done trivial, h.closed, h.order, fun side hf => ?_⟩
    refine CondVar.not_parked_update (h.freed side hf) fun hw => ?_
    have hside : c.consumes = side := by
      by_contra hne
      rw [wait_other hne] at hw
      cases hw
    subst hside
    obtain hfresh | hopen := hopen
    · exact htimely hfresh hf hblocks
    · rw [h.closed_of_freed hf] at hopen
      cases hopen
  | refused =>
    exact ⟨Threads.update_forall h.done trivial, h.closed, h.order, fun side hf =>
      CondVar.not_parked_update (h.freed side hf) Wait.noConfusion⟩
  | pushed | popped =>
    refine ⟨Threads.update_forall (CondVar.notifyOne_forall (fun _ => Place.done_wake) h.done)
      trivial, h.closed, h.order, fun side hf => ?_⟩
    exact CondVar.not_parked_update (not_parked_notifyOne (h.freed side hf)) Wait.noConfusion

/-- **Every step keeps the invariant.** -/
theorem step (h : Released s) {o : Op ι T} (hl : Legal s o) (hp : Timely s o)
    (he : exec s o = .ok s') : Released s' := by
  cases o with
  | call i c =>
    cases he
    refine ⟨Threads.update_forall h.done trivial, h.closed, h.order, fun side hf => ?_⟩
    exact CondVar.not_parked_update (h.freed side hf) (by rw [wait_fresh]; exact Wait.noConfusion)
  | run i expired target =>
    obtain ⟨c, stage, hi, -, -⟩ := hl
    have hran := ran_of_exec hi he
    exact h.ran hi (fun hfresh => hp c (hfresh ▸ hi)) hran
  | wake i =>
    obtain ⟨c, hi⟩ := hl
    obtain rfl := Except.ok.inj ((exec_wake hi).symm.trans he)
    refine ⟨Threads.update_forall h.done trivial, h.closed, h.order, fun side hf => ?_⟩
    exact CondVar.not_parked_update (h.freed side hf) (by rw [wait_woken]; exact Wait.noConfusion)
  | close i =>
    cases he
    refine ⟨Threads.update_forall (fun j => (h.done j).mono (fun _ => rfl) id) rfl, fun _ => rfl,
      h.order, fun side hf => ?_⟩
    exact CondVar.not_parked_update (h.freed side hf) Wait.noConfusion
  | notifyConsumers i =>
    cases he
    have hi : s.place i = .closing := hl
    have hclosed : s.queue.isClosed = true := by
      have hdone := h.done i
      rw [hi] at hdone
      exact hdone
    refine ⟨Threads.update_forall (fun j => ?_) ⟨hclosed, rfl⟩, fun _ => hclosed, fun _ => rfl,
      fun side hf => ?_⟩
    · exact (CondVar.notifyAll_forall (fun _ => Place.done_wake) h.done j).mono id fun _ => rfl
    · refine CondVar.not_parked_update (not_parked_notifyAll fun hside => ?_) Wait.noConfusion
      obtain rfl : side = false := Bool.eq_false_iff.mpr hside
      exact h.freed false hf
  | notifyProducers i =>
    cases he
    have hi : s.place i = .closingProducers := hl
    have hfreed : s.consumersFreed = true := by
      have hdone := h.done i
      rw [hi] at hdone
      exact hdone.2
    refine ⟨Threads.update_forall (CondVar.notifyAll_forall (fun _ => Place.done_wake) h.done)
      trivial, h.closed, fun _ => hfreed, fun side hf => ?_⟩
    refine CondVar.not_parked_update (not_parked_notifyAll fun hside => ?_) Wait.noConfusion
    obtain rfl : side = true := Bool.eq_true_of_not_eq_false hside
    exact h.freed true hf
  | flush target =>
    cases he
    exact ⟨CondVar.notifyOne_forall (fun _ => Place.done_wake) h.done, h.closed, h.order,
      fun side hf => not_parked_notifyOne (h.freed side hf)⟩
  | look =>
    cases he
    exact h

end Released

theorem released_new (capacity : ℕ) : Released (.new capacity : State ι T) :=
  ⟨fun _ => trivial, Bool.noConfusion, Bool.noConfusion, fun _ _ _ => Wait.noConfusion⟩

variable [DecidableEq ι]

/-- A step that breaks the condition parks a thread that no `close` will notify. -/
theorem parks_of_not_timely {o : Op ι T} (he : exec s o = .ok s') (hp : ¬ Timely s o) :
    ∃ i c, s.freed c.consumes = true ∧ s'.place i = .within c .parked := by
  cases o with
  | run i expired target =>
    simp only [Timely, not_forall, not_not] at hp
    obtain ⟨c, hi, hfreed, hblocks⟩ := hp
    have hran := ran_of_exec hi he
    refine ⟨i, c, hfreed, ?_⟩
    cases hran with
    | parks => exact Function.update_self _ _ _
    | refused hagain => exact absurd rfl hagain
    | pushed hopen hroom => exact absurd hblocks (not_le.mpr hroom)
    | popped hopen hc hq =>
      have hempty : s.queue.q = [] := by
        cases c with
        | push => cases hc
        | pop | popTimeout => exact hblocks
      rw [hempty] at hq
      cases hq
  | _ => exact absurd trivial hp

/-- **Closing releases everybody**, if nobody enters who would have to wait after the notification:
when `close` has returned, no thread is parked in the queue.  A step that breaks the condition parks
a thread that has missed the notification. -/
theorem close_releases (h : ((machine ι T).restrict Timely).Reach s) :
    (s.closeReturned = true → ∀ i c, s.place i ≠ .within c .parked) ∧
    ∀ o s', exec s o = .ok s' → ¬ Timely s o →
      ∃ i c, s.freed c.consumes = true ∧ s'.place i = .within c .parked := by
  have hreleased : Released s := by
    refine h.invariant ?_ fun s o s' hs hl he => hs.step hl.1 hl.2 he
    rintro s ⟨capacity, -, rfl⟩
    exact released_new capacity
  refine ⟨fun hclose i c hi => ?_, fun o s' he hp => parks_of_not_timely he hp⟩
  have hfreed : s.freed c.consumes = true := by
    cases c with
    | push item => exact hclose
    | pop | popTimeout => exact hreleased.order hclose
  refine hreleased.freed _ hfreed i ?_
  rw [hi]
  exact if_pos rfl

/-- A consumer was parked when the queue was closed. -/
theorem close_releases_parked : ∃ s : State (Fin 2) ℕ, s.closeReturned = true ∧
    s.place 0 = .within .pop .notified ∧ ∀ i c, s.place i ≠ .within c .parked := by
  have h₁ : ((machine (Fin 2) ℕ).restrict Timely).Reach _ :=
    .step (o := .call 0 .pop) (.init ⟨1, by decide, rfl⟩) ⟨⟨none, rfl⟩, trivial⟩ rfl
  have h₂ : ((machine (Fin 2) ℕ).restrict Timely).Reach _ :=
    .step (o := .run 0 false none) h₁
      ⟨⟨_, _, rfl, by decide, by decide⟩, fun c hc hf => by cases hc; cases hf⟩ rfl
  have h₃ : ((machine (Fin 2) ℕ).restrict Timely).Reach _ :=
    .step (o := .close 1) h₂ ⟨⟨none, rfl⟩, trivial⟩ rfl
  have h₄ : ((machine (Fin 2) ℕ).restrict Timely).Reach _ :=
    .step (o := .notifyConsumers 1) h₃ ⟨rfl, trivial⟩ rfl
  have h₅ : ((machine (Fin 2) ℕ).restrict Timely).Reach _ :=
    .step (o := .notifyProducers 1) h₄ ⟨rfl, trivial⟩ rfl
  exact ⟨_, rfl, rfl, (close_releases h₅).1 rfl⟩

/-- A consumer that enters an empty queue after `close` has returned parks, un-notified. -/
theorem not_close_releases_late : ∃ s : State (Fin 2) ℕ, (machine (Fin 2) ℕ).Reach s ∧
    s.closeReturned = true ∧ s.place 1 = .within .pop .parked := by
  have h₁ : (machine (Fin 2) ℕ).Reach _ :=
    .step (o := .close 0) (.init ⟨1, by decide, rfl⟩) ⟨none, rfl⟩ rfl
  have h₂ : (machine (Fin 2) ℕ).Reach _ := .step (o := .notifyConsumers 0) h₁ rfl rfl
  have h₃ : (machine (Fin 2) ℕ).Reach _ := .step (o := .notifyProducers 0) h₂ rfl rfl
  have h₄ : (machine (Fin 2) ℕ).Reach _ := .step (o := .call 1 .pop) h₃ ⟨none, rfl⟩ rfl
  have h₅ : (machine (Fin 2) ℕ).Reach _ :=
    .step (o := .run 1 false none) h₄ ⟨_, _, rfl, by decide, by decide⟩ rfl
  exact ⟨_, h₅, rfl, rfl⟩

/-! ## Draining -/

/-- No consumer that comes back from a wait finds the queue closed with items in it. -/
def Prompt (s : State ι T) : Op ι T → Prop
  | .run i _ _ => ∀ stage, s.place i = .within .pop stage → stage ≠ .fresh →
    s.queue.isClosed = true → s.queue.q = []
  | _ => True

/-- The `pop`s that returned false did so with the queue closed and empty, and everything that had
been pushed popped. -/
def Drained (s : State ι T) : Prop :=
  ∀ d ∈ s.denied, d.queue.isClosed = true ∧ d.queue.q = [] ∧ d.popped = d.pushed

/-- **Every step keeps the invariant.** -/
theorem Drained.step (h : Drained s) (hexact : Exact s) {o : Op ι T} (hl : Legal s o)
    (hp : Prompt s o) (he : exec s o = .ok s') : Drained s' := by
  cases o with
  | run i expired target =>
    obtain ⟨c, stage, hi, -, -⟩ := hl
    have hran := ran_of_exec hi he
    cases hran with
    | refused hagain hwhy =>
      cases c with
      | pop =>
        have hclosed : s.queue.isClosed = true := hwhy.resolve_right fun hc => by cases hc.1
        have hempty := hp stage hi hagain hclosed
        have hfifo := hexact.fifo
        rw [hempty, List.append_nil] at hfifo
        intro d hd
        obtain hd | hd := List.mem_append.mp hd
        · exact h d hd
        · rw [List.mem_singleton.mp hd]
          exact ⟨hclosed, hempty, hfifo⟩
      | _ => exact h
    | _ => exact h
  | wake i =>
    obtain ⟨c, hi⟩ := hl
    obtain rfl := Except.ok.inj ((exec_wake hi).symm.trans he)
    exact h
  | _ =>
    cases he
    exact h

/-- A step that breaks the condition returns false with an item in the queue. -/
theorem denied_of_not_prompt {o : Op ι T} (he : exec s o = .ok s') (hp : ¬ Prompt s o) :
    ∃ d ∈ s'.denied, d.queue.q ≠ [] := by
  cases o with
  | run i expired target =>
    simp only [Prompt, not_forall] at hp
    obtain ⟨stage, hi, hagain, hclosed, hq⟩ := hp
    have hran := ran_of_exec hi he
    cases hran with
    | refused =>
      refine ⟨⟨s.queue, s.pushed, s.popped⟩, ?_, hq⟩
      exact List.mem_append_right _ (List.mem_singleton.mpr rfl)
    | parks hopen | popped hopen =>
      obtain hfresh | hopen := hopen
      · exact absurd hfresh hagain
      · rw [hclosed] at hopen
        cases hopen
  | _ => exact absurd trivial hp

/-- **Closing loses nothing that was accepted**, if no consumer comes back from a wait to a closed
queue with items in it: a `pop` returns false only when the queue is closed and empty, and all that
was pushed has been handed out.  A step that breaks the condition breaks this. -/
theorem pop_denied (h : ((machine ι T).restrict Prompt).Reach s) :
    (∀ d ∈ s.denied, d.queue.isClosed = true ∧ d.queue.q = [] ∧ d.popped = d.pushed) ∧
    ∀ o s', exec s o = .ok s' → ¬ Prompt s o → ∃ d ∈ s'.denied, d.queue.q ≠ [] := by
  refine ⟨(h.invariant (I := fun s => Exact s ∧ Drained s) ?_ ?_).2,
    fun o s' he hp => denied_of_not_prompt he hp⟩
  · rintro s hs
    refine ⟨exact_safe.init s hs, ?_⟩
    obtain ⟨capacity, -, rfl⟩ := hs
    exact fun d hd => absurd hd List.not_mem_nil
  · rintro s o s' ⟨hexact, hdrained⟩ ⟨hl, hp⟩ he
    obtain ⟨s'', he', hexact'⟩ := hexact.step hl
    obtain rfl := Except.ok.inj (he'.symm.trans he)
    exact ⟨hexact', hdrained.step hexact hl hp he⟩

/-- A consumer waits, and the queue is closed. -/
theorem pop_denied_closed : ∃ s : State (Fin 2) ℕ,
    ((machine (Fin 2) ℕ).restrict Prompt).Reach s ∧ s.denied.length = 1 ∧
    ∀ d ∈ s.denied, d.queue.isClosed = true ∧ d.queue.q = [] ∧ d.popped = d.pushed := by
  have h₁ : ((machine (Fin 2) ℕ).restrict Prompt).Reach _ :=
    .step (o := .call 0 .pop) (.init ⟨1, by decide, rfl⟩) ⟨⟨none, rfl⟩, trivial⟩ rfl
  have h₂ : ((machine (Fin 2) ℕ).restrict Prompt).Reach _ :=
    .step (o := .run 0 false none) h₁
      ⟨⟨_, _, rfl, by decide, by decide⟩, fun _ _ _ _ => rfl⟩ rfl
  have h₃ : ((machine (Fin 2) ℕ).restrict Prompt).Reach _ :=
    .step (o := .close 1) h₂ ⟨⟨none, rfl⟩, trivial⟩ rfl
  have h₄ : ((machine (Fin 2) ℕ).restrict Prompt).Reach _ :=
    .step (o := .notifyConsumers 1) h₃ ⟨rfl, trivial⟩ rfl
  have h₅ : ((machine (Fin 2) ℕ).restrict Prompt).Reach _ :=
    .step (o := .run 0 false none) h₄
      ⟨⟨_, _, rfl, by decide, by decide⟩, fun _ _ _ _ => rfl⟩ rfl
  exact ⟨_, h₅, rfl, (pop_denied h₅).1⟩

/-- A consumer is woken for an item, the queue is closed, and the consumer returns false. -/
theorem not_pop_denied_stranded : ∃ (s : State (Fin 2) ℕ) (d : Denial ℕ),
    (machine (Fin 2) ℕ).Reach s ∧ d ∈ s.denied ∧ d.queue.q = [7] := by
  have h₁ : (machine (Fin 2) ℕ).Reach _ :=
    .step (o := .call 0 .pop) (.init ⟨1, by decide, rfl⟩) ⟨none, rfl⟩ rfl
  have h₂ : (machine (Fin 2) ℕ).Reach _ :=
    .step (o := .run 0 false none) h₁ ⟨_, _, rfl, by decide, by decide⟩ rfl
  have h₃ : (machine (Fin 2) ℕ).Reach _ :=
    .step (o := .call 1 (.push 7)) h₂ ⟨none, rfl⟩ rfl
  have h₄ : (machine (Fin 2) ℕ).Reach _ :=
    .step (o := .run 1 false (some 0)) h₃ ⟨_, _, rfl, by decide, by decide⟩ rfl
  have h₅ : (machine (Fin 2) ℕ).Reach _ := .step (o := .close 1) h₄ ⟨some true, rfl⟩ rfl
  have h₆ : (machine (Fin 2) ℕ).Reach _ :=
    .step (o := .run 0 false none) h₅ ⟨_, _, rfl, by decide, by decide⟩ rfl
  exact ⟨_, _, h₆, List.mem_singleton.mpr rfl, rfl⟩

end BlockQueue

end WebServer
