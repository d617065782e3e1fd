import WebServer.Log.Lines
import WebServer.Machinery.Settling

/-!
# Log/Effort — how many steps may still come in a log

A line in the queue is worth five steps of the write thread, and a thread in `write` is worth those
that its line may still take.  Every step that is not a new call, a flush of the macros or a
spurious wake-up lowers `State.effort`.  Where the threads stand is told by `Tended`: each in its
part of the program, and the write thread parked only beside an empty queue.
-/

namespace WebServer

namespace Log

variable {ι : Type} {abi : Abi (Guarded (Option ι))} {s s' : State ι} {a : Place} {o : Op ι}
  {p : Option ι} {line : Line} {target : Option (Option ι)}

/-- What a step from outside may add. -/
def cost : Op ι → ℕ
  | .enter _ _ _ => 15
  | .flush _ => 2
  | .wake _ => 2
  | _ => 0

/-- The steps that may still come of where a thread stands. -/
def Place.effort : Place → ℕ
  | .idle => 0
  | .rotating _ => 14
  | .reopening _ => 13
  | .arriving _ => 11
  | .testing _ => 10
  | .pushing _ => 9
  | .direct _ => 3
  | .clearing _ => 2
  | .leaving _ => 1
  | .looping => 1
  | .popping => 0
  | .holding _ => 4
  | .writing _ => 3
  | .written => 2
  | .done => 0

/-- A turn in `pop`, if the write thread is not parked there. -/
def stir : BlockQueue.Place Line → ℕ
  | .within _ .parked => 0
  | _ => 1

/-- The steps that may still come. -/
def State.effort [Fintype ι] (s : State ι) : ℕ :=
  ∑ p, (s.place p).effort + 5 * s.que.queue.q.length + stir (s.que.place none)

/-- Whether a place is one of the write thread's. -/
def Place.thread : Place → Option Bool
  | .looping | .popping | .holding _ | .writing _ | .written => some true
  | .done => none
  | _ => some false

/-! ## The write thread is fed -/

/-- **The invariant**: everybody is in his part of the program, the write thread is parked only
beside an empty queue, and what was handed over is returned or about to be. -/
structure Tended (s : State ι) : Prop where
  parts : ∀ p, (s.place p).thread = some p.isNone
  fed : s.que.place none = .within .pop .parked → s.que.queue.q = []
  backed : ∀ line ∈ s.handed, line ∈ s.returned ∨ ∃ p, line ∈ (s.place p).sent

theorem stir_le (q : BlockQueue.Place Line) : stir q ≤ 1 := by
  unfold stir
  split <;> decide

theorem stir_of_fits (ha : a.Fits (s.que.place p)) (hpop : a ≠ .popping)
    (hpush : ∀ line, a ≠ .pushing line) : stir (s.que.place p) = 1 := by
  obtain ⟨ret, hret⟩ := (Place.fits_iff hpush hpop).mp ha
  rw [hret]
  rfl

/-- A thread that may take its turn is not parked. -/
theorem stir_of_legal (hl : BlockQueue.Legal s.que (.run p false target)) :
    stir (s.que.place p) = 1 := by
  obtain ⟨c, stage, hp, hstage, -⟩ := hl
  rw [hp]
  cases stage with
  | parked => exact absurd rfl hstage
  | _ => rfl

variable [DecidableEq ι]

/-- Whoever is parked after a notification was so before. -/
theorem parked_of_notifyOne {place : Option ι → BlockQueue.Place Line} {side : Bool}
    {c : BlockQueue.Call Line}
    (h : (BlockQueue.cond side).notifyOne place target p = .within c .parked) :
    place p = .within c .parked := by
  cases target with
  | none => exact h
  | some j =>
    replace h : Function.update place j (place j).wake p = .within c .parked := h
    obtain rfl | hne := eq_or_ne p j
    · rw [Function.update_self] at h
      cases hp : place p with
      | within => rw [hp] at h; cases h
      | _ => rwa [hp] at h
    · rwa [Function.update_of_ne hne] at h

/-- **A notification of the consumers reaches the write thread**, if it waits for one. -/
theorem Sound.not_parked_notifyOne (h : Sound s)
    (ht : (BlockQueue.cond true).Picks s.que.place target) :
    (BlockQueue.cond true).notifyOne s.que.place target none ≠ .within .pop .parked := by
  intro hparked
  have hbefore := parked_of_notifyOne hparked
  have hwait : (BlockQueue.cond true).wait (s.que.place none) = .parked := by
    rw [hbefore]
    rfl
  cases target with
  | none => exact ht none hwait
  | some j =>
    cases j with
    | none =>
      replace hparked : Function.update s.que.place none (s.que.place none).wake none = _ := hparked
      rw [Function.update_self, hbefore] at hparked
      cases hparked
    | some i =>
      have hi : (BlockQueue.cond true).wait (s.que.place (some i)) = .parked := ht
      cases hplace : s.que.place (some i) with
      | within c stage =>
        cases stage with
        | parked => exact h.write_not_parked i c hplace
        | _ =>
          rw [hplace] at hi
          cases c <;> cases hi
      | _ =>
        rw [hplace] at hi
        cases hi

section Thread

variable {que : BlockQueue.State (Option ι) Line} {i : ι} {q : BlockQueue.Place Line}

/-- The write thread does not see the step of another. -/
theorem goto_thread : (que.goto (some i) q).place none = que.place none :=
  Function.update_of_ne (Option.some_ne_none i).symm q que.place

theorem pushed_thread : (pushed que (some i) target line).place none
    = (BlockQueue.cond true).notifyOne que.place target none :=
  Function.update_of_ne (Option.some_ne_none i).symm (.idle (some true)) _

end Thread

variable (abi) in
/-- With a line in the queue, `pop` takes it. -/
theorem Sound.exec_pop_cons (h : Sound s) {rest : List Line} (hp : s.place none = .popping)
    (hq : s.que.queue.q = line :: rest) (target : Option (Option ι)) :
    exec abi s (.pop target) = .ok { s.goto none (.holding line) with
      que := popped s.que none target line rest } := by
  have hfits := h.fits none
  rw [hp] at hfits
  obtain ⟨stage, hplace⟩ := hfits
  obtain ⟨que, heq, hran⟩ := BlockQueue.exec_run hplace false target
  simp only [exec, heq, ok_bind]
  cases hran with
  | parks hopen hblocks =>
    have hempty : s.que.queue.q = [] := hblocks
    rw [hq] at hempty
    cases hempty
  | refused hagain hwhy =>
    obtain hclosed | ⟨hc, -⟩ := hwhy
    · rw [h.opened] at hclosed
      cases hclosed
    · cases hc
  | popped hopen hc hq' =>
    obtain ⟨rfl, rfl⟩ := List.cons.inj (hq.symm.trans hq')
    have hret : result (popped s.que none target line rest) none = some true :=
      result_of_idle popped_self
    have hlast : (popped s.que none target line rest).popped.getLast? = some line :=
      List.getLast?_concat
    rw [← popped, hret, hlast]
    rfl

/-! ### The invariant is kept -/

/-- **A line goes over before its `write` returns.** -/
theorem Does.backed (hd : Does abi s o s')
    (h : ∀ line ∈ s.handed, line ∈ s.returned ∨ ∃ p, line ∈ (s.place p).sent) :
    ∀ line ∈ s'.handed, line ∈ s'.returned ∨ ∃ p, line ∈ (s'.place p).sent := by
  -- A step of a thread that keeps what it has sent, and hands over nothing but `sent`.
  have goes : ∀ {p : Option ι} {a : Place} {s' : State ι},
      s'.place = Function.update s.place p a → s'.returned = s.returned →
      (∀ x ∈ s'.handed, x ∈ s.handed ∨ x ∈ a.sent) → (∀ x ∈ (s.place p).sent, x ∈ a.sent) →
      ∀ line ∈ s'.handed, line ∈ s'.returned ∨ ∃ p, line ∈ (s'.place p).sent := by
    intro p a s' hplace hreturned hhanded hp line hline
    rw [hplace, hreturned]
    obtain hline | hline := hhanded line hline
    · refine (h line hline).imp_right fun ⟨j, hj⟩ => ⟨j, ?_⟩
      obtain rfl | hne := eq_or_ne j p
      · rw [Function.update_self]
        exact hp line hj
      · rwa [Function.update_of_ne hne]
    · refine .inr ⟨p, ?_⟩
      rwa [Function.update_self]
  have quiet : ∀ {p : Option ι} {a : Place} {s' : State ι},
      s'.place = Function.update s.place p a → s'.returned = s.returned → s'.handed = s.handed →
      (s.place p).sent = [] →
      ∀ line ∈ s'.handed, line ∈ s'.returned ∨ ∃ p, line ∈ (s'.place p).sent := by
    intro p a s' hplace hreturned hhanded hp
    refine goes hplace hreturned (fun x hx => .inl (hhanded ▸ hx)) fun x hx => ?_
    rw [hp] at hx
    cases hx
  cases hd with
  | enter hi | lockRotation hi | reopen hi | lock hi | full hi =>
    exact quiet rfl rfl rfl (by rw [hi]; rfl)
  | @room i no text hi =>
    exact quiet (p := some i) (a := .pushing ⟨no, text⟩) rfl rfl rfl (by rw [hi]; rfl)
  | @push i line target hi =>
    refine goes rfl rfl (fun x hx => ?_) fun x hx => ?_
    · replace hx : x ∈ s.file ++ ((s.place none).hand ++ (s.que.queue.q ++ [line])) := hx
      simp only [List.mem_append] at hx
      simp only [State.handed, State.waiting, List.mem_append]
      tauto
    · rw [hi] at hx
      cases hx
  | @fputs i no text hi =>
    refine goes (a := .clearing ⟨no, text⟩) rfl rfl (fun x hx => ?_) fun x hx => ?_
    · replace hx : x ∈ s.file ++ [⟨no, text⟩] ++ s.waiting := hx
      simp only [List.mem_append] at hx
      simp only [State.handed, List.mem_append]
      tauto
    · rw [hi] at hx
      cases hx
  | @clear i line hi =>
    refine goes (p := some i) (a := .leaving line) rfl rfl (fun x hx => .inl hx) fun x hx => ?_
    rw [hi] at hx
    exact hx
  | @unlock i line hi =>
    intro x hx
    obtain hmem | ⟨j, hj⟩ := h x hx
    · exact .inl (List.mem_append_left _ hmem)
    · by_cases hne : j = some i
      · rw [hne, hi] at hj
        exact .inl (List.mem_append_right _ hj)
      · refine .inr ⟨j, ?_⟩
        show x ∈ (Function.update s.place (some i) .idle j).sent
        rwa [Function.update_of_ne hne]
  | flush | wake | waits => exact h
  | @takes target line rest hp ht hq =>
    have hhanded : s.file ++ ([line] ++ rest) = s.handed := by
      rw [State.handed, State.waiting, hp, hq]
      rfl
    exact quiet rfl rfl hhanded (by rw [hp]; rfl)
  | @lockThread line hp =>
    have hhanded : s.file ++ ([line] ++ s.que.queue.q) = s.handed := by
      rw [State.handed, State.waiting, hp]
      rfl
    exact quiet rfl rfl hhanded (by rw [hp]; rfl)
  | @fputsThread line hp =>
    have hhanded : s.file ++ [line] ++ ([] ++ s.que.queue.q) = s.handed := by
      rw [State.handed, State.waiting, hp, List.append_assoc]
      rfl
    exact quiet rfl rfl hhanded (by rw [hp]; rfl)
  | callPop hp | unlockThread hp =>
    have hhanded : s.file ++ ([] ++ s.que.queue.q) = s.handed := by
      rw [State.handed, State.waiting, hp]
      rfl
    exact quiet rfl rfl hhanded (by rw [hp]; rfl)

/-- **No step takes a thread out of its part of the program.** -/
theorem Does.parts (hd : Does abi s o s') (h : ∀ p, (s.place p).thread = some p.isNone)
    (j : Option ι) : (s'.place j).thread = some j.isNone := by
  have goes : ∀ {p : Option ι} {a : Place}, a.thread = some p.isNone →
      (Function.update s.place p a j).thread = some j.isNone := by
    intro p a ha
    obtain rfl | hne := eq_or_ne j p
    · rwa [Function.update_self]
    · rw [Function.update_of_ne hne]
      exact h j
  cases hd with
  | @enter i r rotates => cases rotates <;> exact goes rfl
  | @room i no text => exact goes (p := some i) (a := .pushing ⟨no, text⟩) rfl
  | @clear i line => exact goes (p := some i) (a := .leaving line) rfl
  | flush | wake | waits => exact h j
  | _ => exact goes rfl

/-- **The write thread is parked only beside an empty queue.** -/
theorem Does.fed (hd : Does abi s o s') (hs : Sound s) (he : exec abi s o = .ok s')
    (h : s.que.place none = .within .pop .parked → s.que.queue.q = []) :
    s'.que.place none = .within .pop .parked → s'.que.queue.q = [] := by
  cases hd with
  | reopen | flush => exact fun hparked => h (parked_of_notifyOne hparked)
  | room =>
    intro hparked
    rw [goto_thread] at hparked
    exact h hparked
  | push hi ht =>
    intro hparked
    rw [pushed_thread] at hparked
    exact absurd hparked (hs.not_parked_notifyOne ht)
  | @wake p hp =>
    intro hparked
    obtain rfl : p = none := by
      cases p with
      | none => rfl
      | some i => exact absurd hp (hs.apart i)
    rw [goto_self] at hparked
    cases hparked
  | @waits target hp =>
    intro _
    rcases hq : s.que.queue.q with _ | ⟨line, rest⟩
    · exact hq
    · have hplace : Function.update s.place none (.holding line) none = s.place none :=
        congrArg (State.place · none)
          (Except.ok.inj ((hs.exec_pop_cons abi hp hq target).symm.trans he))
      rw [Function.update_self, hp] at hplace
      cases hplace
  | takes =>
    intro hparked
    rw [popped_self] at hparked
    cases hparked
  | callPop =>
    intro hparked
    rw [goto_self] at hparked
    cases hparked
  | _ => exact h

namespace Tended

theorem step (h : Tended s) (hs : Sound s) (hl : Legal s o) (he : exec abi s o = .ok s') :
    Tended s' :=
  have hd := hs.does hl he
  ⟨hd.parts h.parts, hd.fed hs he h.fed, hd.backed h.backed⟩

omit [DecidableEq ι] in
theorem new (capacity : ℕ) : Tended (State.new capacity : State ι) := by
  refine ⟨fun p => ?_, fun _ => rfl, fun line hline => absurd hline List.not_mem_nil⟩
  cases p <;> rfl

theorem reach (hc : Clears abi) (h : (machine ι abi).Reach s) : Tended s := by
  induction h with
  | init hs =>
    obtain ⟨capacity, -, rfl⟩ := hs
    exact new capacity
  | step hs hl he ih => exact ih.step (.reach hc hs) hl he

end Tended

/-! ## The potential -/

variable [Fintype ι]

/-- What the step of one thread does to the potential. -/
theorem effort_moved {b : Place} {n : ℕ} (hp : s.place p = b)
    (hplace : s'.place = Function.update s.place p a)
    (hpays : a.effort + 5 * s'.que.queue.q.length + stir (s'.que.place none)
      < b.effort + 5 * s.que.queue.q.length + stir (s.que.place none) + n) :
    s'.effort < s.effort + n := by
  have hsum := Threads.sum_update s.place p a Place.effort
  rw [hp] at hsum
  rw [State.effort, State.effort, hplace]
  omega

/-- **Every step is paid for.** -/
theorem effort_step (hs : Sound s) (hl : Legal s o) (he : exec abi s o = .ok s') :
    s'.effort < s.effort + cost o := by
  have hd := hs.does hl he
  have hstir := stir_le (s'.que.place none)
  cases hd with
  | @enter i r rotates hi =>
    have hle : (if rotates then Place.rotating r else .arriving r).effort ≤ 14 := by
      split <;> simp only [Place.effort] <;> omega
    refine effort_moved hi rfl ?_
    show _ + 5 * s.que.queue.q.length + stir (s.que.place none) < 0 + _ + _ + 15
    omega
  | lockRotation hi | lock hi | full hi | fputs hi | unlock hi | lockThread hi | fputsThread hi
  | unlockThread hi =>
    refine effort_moved hi rfl ?_
    simp only [Place.effort, State.goto, cost]
    omega
  | reopen hi =>
    refine effort_moved hi rfl ?_
    simp only [Place.effort, BlockQueue.State.notifyOne, cost] at hstir ⊢
    omega
  | @clear i line hi =>
    refine effort_moved (p := some i) (a := .leaving line) hi rfl ?_
    show 1 + 5 * s.que.queue.q.length + stir (s.que.place none) < 2 + _ + _ + 0
    omega
  | @room i no text hi =>
    refine effort_moved (p := some i) (a := .pushing ⟨no, text⟩) hi rfl ?_
    show 9 + 5 * s.que.queue.q.length + stir _ < 10 + 5 * s.que.queue.q.length + _ + 0
    rw [goto_thread]
    omega
  | @push i line target hi =>
    refine effort_moved hi rfl ?_
    show 2 + 5 * (s.que.queue.q ++ [line]).length + stir _ < 9 + _ + _ + 0
    rw [List.length_append, List.length_singleton]
    omega
  | flush | wake =>
    simp only [State.effort, BlockQueue.State.notifyOne, BlockQueue.State.goto, cost] at hstir ⊢
    omega
  | @waits target hp =>
    have hbefore := stir_of_legal hl.2
    have hafter : stir ((s.que.goto none (.within .pop .parked)).place none) = 0 := by
      rw [goto_self]
      rfl
    show ∑ p, (s.place p).effort + 5 * s.que.queue.q.length + stir _ < State.effort s + 0
    rw [hafter, State.effort]
    omega
  | @takes target line rest hp ht hq =>
    have hbefore := stir_of_legal hl.2
    refine effort_moved hp rfl ?_
    show 4 + 5 * rest.length + stir _ < 0 + 5 * s.que.queue.q.length + _ + 0
    rw [hq, List.length_cons]
    omega
  | @callPop hp =>
    have hbefore : stir (s.que.place none) = 1 :=
      stir_of_fits (hs.fits_of hp) Place.noConfusion fun _ => Place.noConfusion
    refine effort_moved hp rfl ?_
    show 0 + 5 * s.que.queue.q.length + stir _ < 1 + 5 * s.que.queue.q.length + _ + 0
    omega

/-- **A run has no more steps than the potential at its start and the costs along it.** -/
theorem length_le (hc : Clears abi) (hs : (machine ι abi).Reach s) {ops : List (Op ι)}
    (hruns : (machine ι abi).Runs s ops s') :
    ops.length + s'.effort ≤ s.effort + (ops.map cost).sum := by
  induction hruns with
  | nil => simp
  | cons hl he _ ih =>
    have hlt := effort_step (.reach hc hs) hl he
    have hle := ih (hs.step hl he)
    rw [List.length_cons, List.map_cons, List.sum_cons]
    omega

end Log

end WebServer
