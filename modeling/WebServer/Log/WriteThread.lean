import WebServer.Log.Effort

/-!
# Log/WriteThread — the write thread alone

With nobody in `write`, all that happens in the log is the write thread's: `Turns` is what a step of
it can do, in an open queue or a closed one, and `Beside` what it leaves as it was.  The log is one
whose members no `memset` has nulled.
-/

namespace WebServer

namespace Log

/-- It is in one of the waits of `pop`, or back from one. -/
def waits : BlockQueue.Place Line → Bool
  | .within _ stage => stage ≠ .fresh
  | _ => false

/-- The write thread has not ended, and does not wait. -/
def State.busy {ι : Type} (s : State ι) : Bool :=
  !decide (s.place none = .done) && !waits (s.que.place none)

namespace Exit

variable {ι : Type}

/-- The steps of the write thread. -/
def ofThread : Log.Op ι → Prop
  | .callPop | .pop _ | .lockThread | .fputsThread | .unlockThread | .wake none => True
  | _ => False

/-- The steps that may still come of the write thread. -/
def pull (s : State ι) : ℕ :=
  match s.place none with
  | .done => 0
  | a => a.effort + 5 * s.que.queue.q.length + stir (s.que.place none)

/-- Nobody but the write thread has anything to do in the log. -/
structure Beside (s : State ι) : Prop where
  callers : ∀ i, s.place (some i) = .idle
  outside : ∀ i c stage, s.que.place (some i) ≠ .within c stage
  fits : (s.place none).Fits (s.que.place none)
  part : (s.place none).thread ≠ some false
  held : Mutex.Held Place.holds s.place s.holder
  whole : s.hasFp = true ∧ s.hasQue = true ∧ s.hasThread = true
  fed : s.que.place none = .within .pop .parked → s.que.queue.q = []

variable {abi : Abi (Guarded (Option ι))} {s s' : State ι} {o : Log.Op ι}

theorem pull_eq {a : Place} (ha : s.place none = a) (hdone : a ≠ .done) :
    pull s = a.effort + 5 * s.que.queue.q.length + stir (s.que.place none) := by
  rw [pull, ha]
  cases a with
  | done => exact absurd rfl hdone
  | _ => rfl

theorem pull_done (h : s.place none = .done) : pull s = 0 := by
  rw [pull, h]

variable [DecidableEq ι]

/-- **All that the write thread can do**, in an open queue or a closed one. -/
inductive Turns (s : State ι) : Log.Op ι → State ι → Prop
  | callPop (hp : s.place none = .looping) :
      Turns s .callPop { s.goto none .popping with
        que := s.que.goto none (.within .pop .fresh) }
  | waits {target : Option (Option ι)} {stage : BlockQueue.Stage}
      (hp : s.place none = .popping) (hplace : s.que.place none = .within .pop stage)
      (hstage : stage ≠ .parked) (hopen : stage = .fresh ∨ s.que.queue.isClosed = false)
      (hempty : s.que.queue.q = []) :
      Turns s (.pop target) { s with que := s.que.goto none (.within .pop .parked) }
  | takes {target : Option (Option ι)} {stage : BlockQueue.Stage} {line : Line} {rest : List Line}
      (hp : s.place none = .popping) (hplace : s.que.place none = .within .pop stage)
      (hstage : stage ≠ .parked) (hopen : stage = .fresh ∨ s.que.queue.isClosed = false)
      (hq : s.que.queue.q = line :: rest) :
      Turns s (.pop target) { s.goto none (.holding line) with
        que := popped s.que none target line rest }
  | denied {target : Option (Option ι)} {stage : BlockQueue.Stage}
      (hp : s.place none = .popping) (hplace : s.que.place none = .within .pop stage)
      (hstage : stage ≠ .parked) (hagain : stage ≠ .fresh)
      (hclosed : s.que.queue.isClosed = true) :
      Turns s (.pop target) { s.goto none .done with
        que := { s.que.goto none (.idle (some false)) with
          denied := s.que.denied ++ [⟨s.que.queue, s.que.pushed, s.que.popped⟩] } }
  | lockThread {line : Line} (hp : s.place none = .holding line) (hfree : s.holder = none) :
      Turns s .lockThread { s.goto none (.writing line) with holder := some none }
  | fputsThread {line : Line} (hp : s.place none = .writing line) :
      Turns s .fputsThread { s.goto none .written with file := s.file ++ [line] }
  | unlockThread (hp : s.place none = .written) :
      Turns s .unlockThread { s.goto none .looping with holder := none }
  | wake (hp : s.place none = .popping) (hplace : s.que.place none = .within .pop .parked) :
      Turns s (.wake none) { s with que := s.que.goto none (.within .pop .woken) }

omit [DecidableEq ι] in
/-- The write thread is in the queue in `pop` alone. -/
theorem Beside.within (h : Beside s) {c : BlockQueue.Call Line} {stage : BlockQueue.Stage}
    (hplace : s.que.place none = .within c stage) : s.place none = .popping ∧ c = .pop := by
  have hfits := h.fits
  have hpart := h.part
  rw [hplace] at hfits
  cases hp : s.place none with
  | popping =>
    rw [hp] at hfits
    obtain ⟨stage', heq⟩ := hfits
    cases heq
    exact ⟨rfl, rfl⟩
  | pushing =>
    rw [hp] at hpart
    exact absurd rfl hpart
  | _ =>
    rw [hp] at hfits
    obtain ⟨ret, heq⟩ := hfits
    cases heq

/-- **A step of the write thread does not fail**, and is one of these. -/
theorem Beside.turns (abi : Abi (Guarded (Option ι))) (h : Beside s) (ho : ofThread o)
    (hl : Log.Legal s o) : ∃ s', Log.exec abi s o = .ok s' ∧ Turns s o s' := by
  obtain ⟨hfp, hque, -⟩ := h.whole
  cases o with
  | callPop =>
    simp only [Log.exec, hque]
    exact ⟨_, rfl, .callPop hl⟩
  | pop target =>
    obtain ⟨hp, c, stage, hplace, hstage, ht⟩ := hl
    obtain ⟨-, rfl⟩ := h.within hplace
    obtain ⟨que, heq, hran⟩ := BlockQueue.exec_run hplace false target
    simp only [Log.exec, heq, ok_bind]
    cases hran with
    | parks hopen hblocks =>
      have hret : result (s.que.goto none (.within .pop .parked)) none = none :=
        result_of_within goto_self
      rw [hret]
      exact ⟨_, rfl, .waits hp hplace hstage hopen hblocks⟩
    | refused hagain hwhy =>
      have hclosed := hwhy.resolve_right fun hc => by cases hc.1
      simp only [result, goto_self]
      exact ⟨_, rfl, .denied hp hplace hstage hagain hclosed⟩
    | @popped _ line rest hopen hc hq =>
      have hret : result (popped s.que none target line rest) none = some true :=
        result_of_idle popped_self
      have hlast : (popped s.que none target line rest).popped.getLast? = some line :=
        List.getLast?_concat
      rw [← popped, hret, hlast]
      exact ⟨_, rfl, .takes hp hplace hstage hopen hq⟩
  | lockThread =>
    obtain ⟨⟨line, hp⟩, hfree⟩ := hl
    simp only [Log.exec, hp]
    exact ⟨_, rfl, .lockThread hp hfree⟩
  | fputsThread =>
    obtain ⟨line, hp⟩ := hl
    simp only [Log.exec, hp, hfp]
    exact ⟨_, rfl, .fputsThread hp⟩
  | unlockThread => exact ⟨_, rfl, .unlockThread hl⟩
  | wake p =>
    cases p with
    | some i => exact absurd ho id
    | none =>
      obtain ⟨c, hplace⟩ := hl
      obtain ⟨hp, rfl⟩ := h.within hplace
      simp only [Log.exec, BlockQueue.exec_wake hplace, ok_bind]
      exact ⟨_, rfl, .wake hp hplace⟩
  | _ => exact absurd ho id

/-- Nobody sees a notification who is not in the queue. -/
theorem notifyOne_outside {place : Option ι → BlockQueue.Place Line} {side : Bool} {p : Option ι}
    {target : Option (Option ι)} (h : ∀ c stage, place p ≠ .within c stage) :
    (BlockQueue.cond side).notifyOne place target p = place p := by
  cases target with
  | none => rfl
  | some j =>
    show Function.update place j (place j).wake p = place p
    obtain rfl | hne := eq_or_ne p j
    · rw [Function.update_self]
      cases hp : place p with
      | within c stage => exact absurd hp (h c stage)
      | _ => rfl
    · rw [Function.update_of_ne hne]

/-- What one step of the write thread does to the places. -/
theorem Beside.moved (h : Beside s) {a : Place} {q : BlockQueue.Place Line}
    (hplace : s'.place = Function.update s.place none a) (hself : s'.que.place none = q)
    (hothers : ∀ i, s'.que.place (some i) = s.que.place (some i)) (hfits : a.Fits q)
    (hpart : a.thread ≠ some false) (hheld : Mutex.Held Place.holds s'.place s'.holder)
    (hwhole : s'.hasFp = true ∧ s'.hasQue = true ∧ s'.hasThread = true)
    (hfed : q = .within .pop .parked → s'.que.queue.q = []) : Beside s' where
  callers i := by
    rw [hplace, Function.update_of_ne (Option.some_ne_none i)]
    exact h.callers i
  outside i := by
    rw [hothers i]
    exact h.outside i
  fits := by
    rw [hplace, Function.update_self, hself]
    exact hfits
  part := by
    rw [hplace, Function.update_self]
    exact hpart
  held := hheld
  whole := hwhole
  fed hparked := hfed (hself ▸ hparked)

/-- **A step of the write thread leaves the others where they are.** -/
theorem Turns.others (ht : Turns s o s') (h : Beside s) (i : ι) :
    s'.que.place (some i) = s.que.place (some i) := by
  cases ht with
  | @takes target =>
    show (BlockQueue.cond false).notifyOne s.que.place target (some i) = s.que.place (some i)
    exact notifyOne_outside (h.outside i)
  | _ => rfl

theorem Turns.beside (ht : Turns s o s') (h : Beside s) : Beside s' := by
  have hothers := ht.others h
  cases ht with
  | callPop hp =>
    exact h.moved rfl goto_self hothers ⟨_, rfl⟩ (by decide) (h.held.stay (by rw [hp]; rfl))
      h.whole nofun
  | waits hp hplace hstage hopen hempty =>
    refine h.moved (a := .popping) ?_ goto_self hothers ⟨_, rfl⟩ (by decide) h.held h.whole
      fun _ => hempty
    exact (Function.update_eq_self_iff.mpr hp.symm).symm
  | takes hp =>
    exact h.moved rfl popped_self hothers ⟨_, rfl⟩ (by simp [Place.thread])
      (h.held.stay (by rw [hp]; rfl)) h.whole nofun
  | denied hp =>
    refine h.moved (q := .idle (some false)) rfl ?_ hothers ⟨_, rfl⟩ (by decide)
      (h.held.stay (by rw [hp]; rfl)) h.whole nofun
    exact Function.update_self none (.idle (some false)) s.que.place
  | lockThread hp hfree =>
    have hfits := h.fits
    rw [hp] at hfits
    exact h.moved rfl rfl hothers hfits (by simp [Place.thread]) (.take rfl) h.whole h.fed
  | fputsThread hp =>
    have hfits := h.fits
    rw [hp] at hfits
    exact h.moved rfl rfl hothers hfits (by decide) (h.held.stay (by rw [hp]; rfl)) h.whole h.fed
  | unlockThread hp =>
    have hfits := h.fits
    rw [hp] at hfits
    exact h.moved rfl rfl hothers hfits (by decide) .none h.whole h.fed
  | wake hp =>
    refine h.moved (a := .popping) ?_ goto_self hothers ⟨_, rfl⟩ (by decide) h.held h.whole nofun
    exact (Function.update_eq_self_iff.mpr hp.symm).symm

/-- It closes no queue and puts nothing into one. -/
theorem Turns.queue (ht : Turns s o s') :
    s'.que.queue.isClosed = s.que.queue.isClosed ∧
      (s.que.queue.q = [] → s'.que.queue.q = []) := by
  cases ht with
  | takes hp hplace hstage hopen hq =>
    refine ⟨rfl, fun hempty => ?_⟩
    rw [hq] at hempty
    cases hempty
  | _ => exact ⟨rfl, id⟩

/-- A thread that has ended makes none, and one ends in a closed queue. -/
theorem Turns.ends (ht : Turns s o s') :
    s.place none ≠ .done ∧ (s'.place none = .done → s.que.queue.isClosed = true) := by
  have hself : ∀ a : Place, Function.update s.place none a none = a := fun a =>
    Function.update_self ..
  cases ht with
  | denied hp hplace hstage hagain hclosed => exact ⟨by rw [hp]; nofun, fun _ => hclosed⟩
  | waits hp | wake hp =>
    refine ⟨by rw [hp]; nofun, fun hdone => ?_⟩
    cases hp.symm.trans hdone
  | callPop hp | takes hp | lockThread hp | fputsThread hp | unlockThread hp =>
    refine ⟨by rw [hp]; nofun, fun hdone => ?_⟩
    cases (hself _).symm.trans hdone

/-- **It hands nothing over**, it only brings it nearer to the file. -/
theorem Turns.handed (ht : Turns s o s') : s'.handed = s.handed := by
  cases ht with
  | waits | wake => rfl
  | takes hp hplace hstage hopen hq =>
    rw [State.handed, State.waiting, State.handed, State.waiting, hp, hq]
    rfl
  | callPop hp | denied hp | lockThread hp | unlockThread hp =>
    rw [State.handed, State.waiting, State.handed, State.waiting, hp]
    rfl
  | fputsThread hp =>
    rw [State.handed, State.waiting, State.handed, State.waiting, hp]
    simp [State.goto, Place.hand]

/-- **Every step is paid for.** -/
theorem Turns.pull (ht : Turns s o s') (h : Beside s) :
    pull s' < pull s + cost o := by
  have hself : ∀ a : Place, Function.update s.place none a none = a := fun a =>
    Function.update_self ..
  have hstir := stir_le (s'.que.place none)
  have hturn : ∀ {stage : BlockQueue.Stage}, s.que.place none = .within .pop stage →
      stage ≠ .parked → stir (s.que.place none) = 1 := by
    intro stage hplace hstage
    rw [hplace]
    cases stage with
    | parked => exact absurd rfl hstage
    | _ => rfl
  cases ht with
  | waits hp hplace hstage hopen hempty =>
    have hafter : stir ((s.que.goto none (.within .pop .parked)).place none) = 0 := by
      rw [goto_self]
      rfl
    refine lt_of_eq_of_lt (pull_eq hp nofun) ?_
    rw [pull_eq hp nofun, hafter, hturn hplace hstage]
    exact Nat.lt_succ_self _
  | @takes target stage line rest hp hplace hstage hopen hq =>
    refine lt_of_eq_of_lt (pull_eq (hself (.holding line)) nofun) ?_
    rw [pull_eq hp nofun, hturn hplace hstage, hq]
    show 4 + 5 * rest.length + stir _ < 0 + 5 * (line :: rest).length + 1 + 0
    rw [List.length_cons]
    omega
  | denied hp hplace hstage =>
    refine lt_of_eq_of_lt (pull_done (hself .done)) ?_
    rw [pull_eq hp nofun, hturn hplace hstage]
    exact Nat.succ_pos _
  | @lockThread line hp =>
    refine lt_of_eq_of_lt (pull_eq (hself (.writing line)) nofun) ?_
    rw [pull_eq hp nofun]
    show 3 + 5 * s.que.queue.q.length + _ < 4 + 5 * s.que.queue.q.length + _ + 0
    exact Nat.add_lt_add_right (Nat.add_lt_add_right (by decide) _) _
  | fputsThread hp =>
    refine lt_of_eq_of_lt (pull_eq (hself .written) nofun) ?_
    rw [pull_eq hp nofun]
    show 2 + 5 * s.que.queue.q.length + _ < 3 + 5 * s.que.queue.q.length + _ + 0
    exact Nat.add_lt_add_right (Nat.add_lt_add_right (by decide) _) _
  | unlockThread hp =>
    refine lt_of_eq_of_lt (pull_eq (hself .looping) nofun) ?_
    rw [pull_eq hp nofun]
    show 1 + 5 * s.que.queue.q.length + _ < 2 + 5 * s.que.queue.q.length + _ + 0
    exact Nat.add_lt_add_right (Nat.add_lt_add_right (by decide) _) _
  | callPop hp =>
    have hfits := h.fits
    rw [hp] at hfits
    have hbefore : stir (s.que.place none) = 1 := stir_of_fits hfits nofun nofun
    refine lt_of_eq_of_lt (pull_eq (hself .popping) nofun) ?_
    rw [pull_eq hp nofun, hbefore]
    show 0 + 5 * s.que.queue.q.length + stir _ < 1 + 5 * s.que.queue.q.length + 1 + 0
    omega
  | wake hp hplace =>
    refine lt_of_eq_of_lt (pull_eq hp nofun) ?_
    rw [pull_eq hp nofun]
    show 0 + 5 * s.que.queue.q.length + stir _ < 0 + 5 * s.que.queue.q.length + _ + 2
    omega

end Exit

end Log

end WebServer
