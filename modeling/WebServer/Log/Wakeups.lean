import WebServer.Log.Queue

/-!
# Log/Wakeups — as long as it is open, the queue loses no wake-up

An item is work for the consumers and a free slot is work for the producers.  Each is covered by
`Machinery/CondVar`'s invariant, with no notification to come: `push` and `pop` notify before they
let go of `_m`.  A `popTimeout` may drop its notification, so there are none here.
-/

namespace WebServer

namespace BlockQueue

variable {ι T : Type} {s s' : State ι T} {i : ι} {c : Call T} {stage : Stage} {expired : Bool}
  {target : Option ι}

/-- Nobody calls `popTimeout`. -/
def Plain (_ : State ι T) : Op ι T → Prop
  | .call _ .popTimeout => False
  | _ => True

/-- A thread in `popTimeout`. -/
def Place.timed : Place T → Bool
  | .within .popTimeout _ => true
  | _ => false

theorem timed_within (stage stage' : Stage) :
    (Place.within c stage).timed = (Place.within c stage').timed := by
  cases c <;> rfl

theorem timed_wake (place : Place T) : place.wake.timed = place.timed := by
  cases place with
  | within call stage => cases call <;> rfl
  | _ => rfl

section Timed

variable {place : ι → Place T} {side : Bool} {p : Place T} (h : ∀ j, (place j).timed = false)
include h

theorem timed_update [DecidableEq ι] (hp : p.timed = false) (j : ι) :
    (Function.update place i p j).timed = false :=
  Threads.update_forall (Q := fun p : Place T => p.timed = false) h hp j

theorem timed_notifyOne [DecidableEq ι] (j : ι) :
    ((cond side).notifyOne place target j).timed = false :=
  CondVar.notifyOne_forall (Q := fun p : Place T => p.timed = false)
    (fun a ha => (timed_wake a).trans ha) h j

theorem timed_notifyAll (j : ι) : ((cond side).notifyAll place j).timed = false :=
  CondVar.notifyAll_forall (Q := fun p : Place T => p.timed = false)
    (fun a ha => (timed_wake a).trans ha) h j

end Timed

variable [Fintype ι]

/-- The work of the consumers, and that of the producers, is covered. -/
structure Covered (s : State ι T) : Prop where
  consumers : (cond true).Covers s.place s.queue.q.length 0
  producers : (cond false).Covers s.place (s.queue.capacity - s.queue.q.length) 0

/-- **The invariant.** -/
structure Awake (s : State ι T) : Prop where
  exact : Exact s
  plain : ∀ i, (s.place i).timed = false
  covered : s.queue.isClosed = false → Covered s

variable [DecidableEq ι]

/-- **A thread passes a piece of work on**: it takes one from its own side, and notifies the other
side of a new one. -/
theorem passes {place : ι → Place T} {side : Bool} {new old : ℕ} (ret : Option Bool)
    (hnew : (cond side).Covers place new 0) (hold : (cond !side).Covers place (old + 1) 0)
    (hi : (cond side).wait (place i) = .away) (ht : (cond side).Picks place target) :
    (cond side).Covers (Function.update ((cond side).notifyOne place target) i (.idle ret))
      (new + 1) 0 ∧
    (cond !side).Covers (Function.update ((cond side).notifyOne place target) i (.idle ret))
      old 0 := by
  have hsame : (cond side).notifyOne place target i = place i :=
    ht.notifyOne_eq (by rw [hi]; exact Wait.noConfusion)
  refine ⟨(hnew.add.notifyOne ht).stay ?_, ?_⟩
  · rw [hsame, hi]
    rfl
  · exact (hold.stay_notifyOne wait_wake_other ht).take Wait.noConfusion

/-- **Everybody on one side is notified**, by a thread that waits on neither. -/
theorem frees (side : Bool) {place : ι → Place T} {other : ℕ} {p : Place T} (freed : ℕ)
    (hother : (cond !side).Covers place other 0) (hi : ∀ side, (cond side).wait (place i) = .away)
    (hp : ∀ side, (cond side).wait p = .away) :
    (cond side).Covers (Function.update ((cond side).notifyAll place) i p) freed 0 ∧
    (cond !side).Covers (Function.update ((cond side).notifyAll place) i p) other 0 := by
  constructor
  · refine .of_parked (CondVar.not_parked_update ((cond side).not_parked_notifyAll place) ?_)
    rw [hp]
    exact Wait.noConfusion
  · refine (hother.stay_notifyAll wait_wake_other).stay ?_
    rw [CondVar.notifyAll_eq (by rw [hi]; exact Wait.noConfusion), hi, hp]

namespace Covered

/-- A thread that has to wait has nothing to do. -/
theorem parks (h : Covered s) (hi : s.place i = .within c stage) (hblocks : s.queue.Blocks c) :
    Covered (s.goto i (.within c .parked)) := by
  cases c with
  | push item =>
    have hfull : s.queue.capacity - s.queue.q.length = 0 := Nat.sub_eq_zero_of_le hblocks
    refine ⟨h.consumers.stay (by rw [hi]; rfl), ?_⟩
    show (cond false).Covers _ (s.queue.capacity - s.queue.q.length) 0
    rw [hfull]
    exact .zero
  | pop | popTimeout =>
    have hempty : s.queue.q = [] := hblocks
    refine ⟨?_, h.producers.stay (by rw [hi]; rfl)⟩
    show (cond true).Covers _ s.queue.q.length 0
    rw [hempty]
    exact .zero

/-- A step of one thread that neither condition sees. -/
theorem goto (h : Covered s) {place : Place T}
    (hw : ∀ side, (cond side).wait place = (cond side).wait (s.place i)) :
    Covered (s.goto i place) :=
  ⟨h.consumers.stay (hw true), h.producers.stay (hw false)⟩

/-- A wait that ends without a notification. -/
theorem wake (h : Covered s) (hi : s.place i = .within c .parked) :
    Covered (s.goto i (.within c .woken)) := by
  have hbefore : ∀ side, (cond side).wait (s.place i) ≠ .notified := fun side => by
    rw [hi]
    exact wait_parked_ne
  have hafter : ∀ side, (cond side).wait (.within c .woken : Place T) ≠ .parked := fun side => by
    rw [wait_woken]
    exact Wait.noConfusion
  exact ⟨h.consumers.leave (hbefore _) (hafter _), h.producers.leave (hbefore _) (hafter _)⟩

end Covered

namespace Awake

theorem ran (h : Awake s) (hi : s.place i = .within c stage)
    (ht : (cond (!c.consumes)).Picks s.place target)
    (hran : Ran s i stage expired target c s') : Awake s' := by
  have htimed : c ≠ .popTimeout := by
    rintro rfl
    have := h.plain i
    rw [hi] at this
    cases this
  have hexact := h.exact.ran hran
  have hbound := h.exact.bound
  cases hran with
  | parks hopen hblocks =>
    refine ⟨hexact, timed_update h.plain ?_, fun hc => (h.covered hc).parks hi hblocks⟩
    cases c with
    | popTimeout => exact absurd rfl htimed
    | _ => rfl
  | refused hagain hwhy =>
    refine ⟨hexact, timed_update h.plain rfl, fun hc => ?_⟩
    have hopen : s.queue.isClosed = false := hc
    obtain hclosed | ⟨rfl, -⟩ := hwhy
    · rw [hopen] at hclosed
      cases hclosed
    · exact absurd rfl htimed
  | @pushed item hopen hroom =>
    refine ⟨hexact, timed_update (timed_notifyOne h.plain) rfl, fun hc => ?_⟩
    have hcovered := h.covered hc
    have hproducers := hcovered.producers
    rw [show s.queue.capacity - s.queue.q.length
      = s.queue.capacity - (s.queue.q.length + 1) + 1 by omega] at hproducers
    obtain ⟨hitems, hslots⟩ :=
      passes (i := i) (some true) hcovered.consumers hproducers (by rw [hi]; rfl) ht
    constructor
    · show (cond true).Covers _ (s.queue.q ++ [item]).length 0
      rw [List.length_append]
      exact hitems
    · show (cond false).Covers _ (s.queue.capacity - (s.queue.q ++ [item]).length) 0
      rw [List.length_append]
      exact hslots
  | @popped c item rest hopen hconsumes hq =>
    rw [hconsumes] at ht
    refine ⟨hexact, timed_update (timed_notifyOne h.plain) rfl, fun hc => ?_⟩
    have hcovered := h.covered hc
    have hconsumers := hcovered.consumers
    rw [hq, List.length_cons] at hconsumers hbound
    obtain ⟨hslots, hitems⟩ :=
      passes (i := i) (some true) hcovered.producers hconsumers
        (by rw [hi]; exact wait_other (by rw [hconsumes]; decide)) ht
    refine ⟨hitems, ?_⟩
    show (cond false).Covers _ (s.queue.capacity - rest.length) 0
    rw [show s.queue.capacity - rest.length = s.queue.capacity - s.queue.q.length + 1 by
      rw [hq, List.length_cons]; omega]
    exact hslots

/-- **Every step keeps the invariant.** -/
theorem step (h : Awake s) {o : Op ι T} (hl : Legal s o) (hp : Plain s o) :
    ∃ s', exec s o = .ok s' ∧ Awake s' := by
  cases o with
  | call i c =>
    obtain ⟨ret, hi⟩ := hl
    refine ⟨_, rfl, ⟨h.exact.bound, h.exact.fifo⟩, timed_update h.plain ?_, fun hc => ?_⟩
    · cases c with
      | popTimeout => exact hp.elim
      | _ => rfl
    · refine (h.covered hc).goto fun side => ?_
      rw [hi, wait_fresh]
      rfl
  | run i expired target =>
    obtain ⟨c, stage, hi, -, ht⟩ := hl
    obtain ⟨s', he, hran⟩ := exec_run hi expired target
    exact ⟨s', he, h.ran hi ht hran⟩
  | wake i =>
    obtain ⟨c, hi⟩ := hl
    have htimed := h.plain i
    rw [hi, timed_within _ .woken] at htimed
    exact ⟨_, exec_wake hi, ⟨h.exact.bound, h.exact.fifo⟩, timed_update h.plain htimed,
      fun hc => (h.covered hc).wake hi⟩
  | close i =>
    exact ⟨_, rfl, ⟨h.exact.bound, h.exact.fifo⟩, timed_update h.plain rfl, Bool.noConfusion⟩
  | notifyConsumers i =>
    have hi : s.place i = .closing := hl
    refine ⟨_, rfl, ⟨h.exact.bound, h.exact.fifo⟩, timed_update (timed_notifyAll h.plain) rfl,
      fun hc => ?_⟩
    have haway : ∀ side, (cond side).wait (s.place i) = .away := fun _ => by rw [hi]; rfl
    obtain ⟨hfreed, hother⟩ := frees true (p := .closingProducers) s.queue.q.length
      (h.covered hc).producers haway fun _ => rfl
    exact ⟨hfreed, hother⟩
  | notifyProducers i =>
    have hi : s.place i = .closingProducers := hl
    refine ⟨_, rfl, ⟨h.exact.bound, h.exact.fifo⟩, timed_update (timed_notifyAll h.plain) rfl,
      fun hc => ?_⟩
    have haway : ∀ side, (cond side).wait (s.place i) = .away := fun _ => by rw [hi]; rfl
    obtain ⟨hfreed, hother⟩ := frees false (p := .idle none)
      (s.queue.capacity - s.queue.q.length) (h.covered hc).consumers haway fun _ => rfl
    exact ⟨hother, hfreed⟩
  | flush target =>
    refine ⟨_, rfl, ⟨h.exact.bound, h.exact.fifo⟩, timed_notifyOne h.plain, fun hc => ?_⟩
    exact ⟨(h.covered hc).consumers.spare hl,
      (h.covered hc).producers.stay_notifyOne wait_wake_other hl⟩
  | look => exact ⟨s, rfl, h⟩

end Awake

theorem awake_safe : ((machine ι T).restrict Plain).Safe Awake where
  init s hs := by
    obtain ⟨capacity, hpos, rfl⟩ := hs
    have haway : ∀ i side, (cond side).wait ((State.new capacity : State ι T).place i) ≠ .parked :=
      fun _ _ => Wait.noConfusion
    exact ⟨exact_safe.init _ ⟨capacity, hpos, rfl⟩, fun _ => rfl,
      fun _ => ⟨.of_parked fun i => haway i true, .of_parked fun i => haway i false⟩⟩
  step _ _ hs hl := hs.step hl.1 hl.2

/-- **As long as it is open, the queue loses no wake-up.**  With a consumer parked in `pop` and not
notified, the items in the queue are no more than the consumers that have been notified and have not
locked `_m` again; with a producer parked in `push`, neither are the free slots more than the
producers. -/
theorem queue_wakes (h : ((machine ι T).restrict Plain).Reach s)
    (hopen : s.queue.isClosed = false) :
    ((∃ i, s.place i = .within .pop .parked) →
      s.queue.q.length ≤ (cond true).notified s.place) ∧
    ((∃ i item, s.place i = .within (.push item) .parked) →
      s.queue.capacity - s.queue.q.length ≤ (cond false).notified s.place) := by
  have hcovered : Covered s := (awake_safe.reach h).covered hopen
  constructor
  · rintro ⟨i, hi⟩
    exact hcovered.consumers (CondVar.parked_pos_iff.mpr ⟨i, by rw [hi]; rfl⟩)
  · rintro ⟨i, item, hi⟩
    exact hcovered.producers (CondVar.parked_pos_iff.mpr ⟨i, by rw [hi]; rfl⟩)

/-- Two consumers wait, and a push notifies one of them. -/
theorem queue_wakes_pushed : ∃ s : State (Fin 3) ℕ, s.place 1 = .within .pop .parked ∧
    s.queue.q.length = 1 ∧ 1 ≤ (cond true).notified s.place := by
  have h₁ : ((machine (Fin 3) ℕ).restrict Plain).Reach _ :=
    .step (o := .call 0 .pop) (.init ⟨1, by decide, rfl⟩) ⟨⟨none, rfl⟩, trivial⟩ rfl
  have h₂ : ((machine (Fin 3) ℕ).restrict Plain).Reach _ :=
    .step (o := .run 0 false none) h₁ ⟨⟨_, _, rfl, by decide, by decide⟩, trivial⟩ rfl
  have h₃ : ((machine (Fin 3) ℕ).restrict Plain).Reach _ :=
    .step (o := .call 1 .pop) h₂ ⟨⟨none, rfl⟩, trivial⟩ rfl
  have h₄ : ((machine (Fin 3) ℕ).restrict Plain).Reach _ :=
    .step (o := .run 1 false none) h₃ ⟨⟨_, _, rfl, by decide, by decide⟩, trivial⟩ rfl
  have h₅ : ((machine (Fin 3) ℕ).restrict Plain).Reach _ :=
    .step (o := .call 2 (.push 7)) h₄ ⟨⟨none, rfl⟩, trivial⟩ rfl
  have h₆ : ((machine (Fin 3) ℕ).restrict Plain).Reach _ :=
    .step (o := .run 2 false (some 0)) h₅ ⟨⟨_, _, rfl, by decide, by decide⟩, trivial⟩ rfl
  exact ⟨_, rfl, rfl, (queue_wakes h₆ rfl).1 ⟨1, rfl⟩⟩

end BlockQueue

end WebServer
