import WebServer.Buffer.Reset
import WebServer.Log.Log
import WebServer.Machinery.Mutex

/-!
# Log/Locks — the lock of the log and the lock of the queue

`full` and `push` are two critical sections of the queue, and the write thread may come in between.
But a thread pushes only while it has a line in `_buf`, and no other has one then, so between them
the queue can only get shorter: the push finds room and does not wait.

That no two threads have a line in `_buf` is the work of `_m`, as long as the `memset` spares it;
and a `memset` that reaches it has nulled the vector, so that no line is made any more.
-/

namespace WebServer

namespace Log

variable {ι : Type} {abi : Abi (Guarded (Option ι))} {s s' : State ι} {a : Place} {p : Option ι}
  {line : Line} {q : BlockQueue.Place Line} {qplace : Option ι → BlockQueue.Place Line}
  {side : Bool} {target : Option (Option ι)}

/-- Where a thread stands in the queue, by where it stands in the log. -/
def Place.Fits : Place → BlockQueue.Place Line → Prop
  | .pushing line, q => q = .within (.push line) .fresh
  | .popping, q => ∃ stage, q = .within .pop stage
  | _, q => ∃ ret, q = .idle ret

theorem Place.Fits.wake (h : a.Fits q) (hq : (BlockQueue.cond side).wait q = .parked) :
    a.Fits ((BlockQueue.cond side).wake q) := by
  cases a with
  | pushing line =>
    obtain rfl : q = _ := h
    rw [BlockQueue.wait_fresh] at hq
    cases hq
  | popping =>
    obtain ⟨stage, rfl⟩ := h
    exact ⟨.notified, rfl⟩
  | _ =>
    obtain ⟨ret, rfl⟩ := h
    cases hq

/-- Only a thread in `pop` waits in the queue. -/
theorem Place.Fits.popping {c : BlockQueue.Call Line} (h : a.Fits (.within c .parked)) :
    a = .popping ∧ c = .pop := by
  cases a with
  | pushing line => cases h
  | popping =>
    obtain ⟨stage, hq⟩ := h
    cases hq
    exact ⟨rfl, rfl⟩
  | _ =>
    obtain ⟨ret, hq⟩ := h
    cases hq

/-- Outside `push` and `pop` a thread is outside the queue. -/
theorem Place.fits_iff (hpush : ∀ line, a ≠ .pushing line) (hpop : a ≠ .popping) :
    a.Fits q ↔ ∃ ret, q = .idle ret := by
  cases a with
  | pushing line => exact absurd rfl (hpush line)
  | popping => exact absurd rfl hpop
  | _ => exact Iff.rfl

/-- It has a line in `_buf`, or has handed it over and is still in the critical section. -/
def Place.hands : Place → Bool
  | .testing _ | .pushing _ | .direct _ | .clearing _ | .leaving _ => true
  | _ => false

theorem Place.holds_of_hands (h : a.hands = true) : a.holds = true := by
  cases a with
  | testing | pushing | direct | clearing | leaving => rfl
  | _ => cases h

/-- **What is known of `_m`**: who holds it, as long as there is a vector. -/
structure Kept (s : State ι) : Prop where
  owns : s.buf.buf ≠ [] → Mutex.Owns Place.holds s.place s.holder
  held : Mutex.Held Place.holds s.place s.holder
  lone : Mutex.Lone Place.hands s.place

/-- **The invariant of the two locks.** -/
structure Sound (s : State ι) : Prop where
  opened : s.que.queue.isClosed = false
  fits : ∀ p, (s.place p).Fits (s.que.place p)
  kept : Kept s
  /-- Only the write thread pops. -/
  apart : ∀ i, s.place (some i) ≠ .popping
  /-- Whoever is in `push` has found the queue not full. -/
  room : ∀ p line, s.place p = .pushing line → s.que.queue.q.length < s.que.queue.capacity

/-- The log after `retrieveAll`. -/
def State.cleared (abi : Abi (Guarded (Option ι))) (s : State ι) : State ι :=
  { s with toGuarded := s.buf.retrieveAll abi s.toGuarded }

/-- **A `memset` has left everything, changed the buffer alone, or nulled the vector.** -/
theorem cleared_cases (hc : Clears abi) (s : State ι) : s.cleared abi = s ∨
    s.buf.buf ≠ [] ∧ ((s.cleared abi).holder = s.holder ∨
      (s.cleared abi).buf.buf = [] ∧ (s.cleared abi).holder = none) := by
  by_cases hb : s.buf.buf = []
  · refine .inl ?_
    rw [State.cleared, Buffer.retrieveAll, hb, List.length_nil, hc.nothing]
  · refine .inr ⟨hb, ?_⟩
    obtain ⟨buf, hbuf⟩ | ⟨hnull, hholder | hholder⟩ := hc.forward s.buf.buf.length s.toGuarded
    · refine .inl ?_
      show (abi.zeroed s.buf.buf.length s.toGuarded).holder = _
      rw [hbuf]
    · exact .inl hholder
    · exact .inr ⟨hnull, hholder⟩

/-- **`retrieveAll` keeps it.** -/
theorem Kept.cleared (hc : Clears abi) (h : Kept s) : Kept (s.cleared abi) := by
  obtain hsame | ⟨hb, hholder | ⟨hnull, hholder⟩⟩ := cleared_cases hc s
  · rwa [hsame]
  · refine ⟨fun _ => ?_, ?_, h.lone⟩
    · rw [hholder]
      exact h.owns hb
    · rw [hholder]
      exact h.held
  · refine ⟨fun hne => absurd hnull hne, ?_, h.lone⟩
    rw [hholder]
    exact .none

variable [DecidableEq ι]

namespace Kept

/-- A step of one thread, on its side of the lock. -/
theorem stay (h : Kept s) (hplace : s'.place = Function.update s.place p a)
    (hbuf : s'.buf = s.buf) (hholder : s'.holder = s.holder)
    (ha : a.holds = (s.place p).holds) (hhands : a.hands = true → (s.place p).hands = true) :
    Kept s' := by
  refine ⟨fun hb => ?_, ?_, ?_⟩
  · rw [hplace, hholder]
    exact (h.owns (hbuf ▸ hb)).stay ha
  · rw [hplace, hholder]
    exact h.held.stay ha
  · rw [hplace]
    exact h.lone.stay hhands

/-- A thread takes the lock, and has no line. -/
theorem take (h : Kept s) (hfree : s.holder = none)
    (hplace : s'.place = Function.update s.place p a) (hbuf : s'.buf = s.buf)
    (hholder : s'.holder = some p) (ha : a.holds = true) (hhands : a.hands = false) : Kept s' := by
  refine ⟨fun hb => ?_, ?_, ?_⟩
  · rw [hplace, hholder]
    exact (hfree ▸ h.owns (hbuf ▸ hb)).take ha
  · rw [hplace, hholder]
    exact .take ha
  · rw [hplace]
    exact h.lone.stay fun hnot => by rw [hhands] at hnot; cases hnot

/-- A thread leaves it. -/
theorem leave (h : Kept s) (hp : (s.place p).holds = true)
    (hplace : s'.place = Function.update s.place p a) (hbuf : s'.buf = s.buf)
    (hholder : s'.holder = none) (ha : a.holds = false) : Kept s' := by
  refine ⟨fun hb => ?_, ?_, ?_⟩
  · rw [hplace, hholder]
    exact (h.owns (hbuf ▸ hb)).leave hp ha
  · rw [hholder]
    exact .none
  · rw [hplace]
    refine h.lone.stay fun hhands => ?_
    rw [Place.holds_of_hands hhands] at ha
    cases ha

/-- **A thread makes a line**, which it can where there is a vector: it is alone. -/
theorem make (h : Kept s) (hb : s.buf.buf ≠ []) (hfree : s.holder = none)
    (hplace : s'.place = Function.update s.place p a) (hholder : s'.holder = some p)
    (ha : a.holds = true) : Kept s' := by
  have howns : Mutex.Owns Place.holds s'.place s'.holder := by
    rw [hplace, hholder]
    exact (hfree ▸ h.owns hb).take ha
  exact ⟨fun _ => howns, howns.held, howns.lone fun _ => Place.holds_of_hands⟩

end Kept

theorem fits_notifyOne (h : ∀ p, (s.place p).Fits (s.que.place p))
    (ht : (BlockQueue.cond side).Picks s.que.place target) (p : Option ι) :
    (s.place p).Fits ((BlockQueue.cond side).notifyOne s.que.place target p) := by
  cases target with
  | none => exact h p
  | some j =>
    show (s.place p).Fits
      (Function.update s.que.place j ((BlockQueue.cond side).wake (s.que.place j)) p)
    obtain rfl | hp := eq_or_ne p j
    · rw [Function.update_self]
      exact (h p).wake ht
    · rw [Function.update_of_ne hp]
      exact h p

/-- A step of one thread, in the log and in the queue. -/
theorem fits_update (h : ∀ p, (s.place p).Fits (qplace p)) (ha : a.Fits q) (j : Option ι) :
    (Function.update s.place p a j).Fits (Function.update qplace p q j) := by
  obtain rfl | hj := eq_or_ne j p
  · rwa [Function.update_self, Function.update_self]
  · rw [Function.update_of_ne hj, Function.update_of_ne hj]
    exact h j

/-- A step of one thread in the log alone. -/
theorem fits_goto (h : ∀ p, (s.place p).Fits (qplace p)) (ha : a.Fits (qplace p)) (j : Option ι) :
    (Function.update s.place p a j).Fits (qplace j) := by
  have hfits := fits_update (p := p) h ha j
  rwa [Function.update_eq_self] at hfits

/-- A step of one thread in the queue alone. -/
theorem fits_turn (h : ∀ p, (s.place p).Fits (qplace p)) (hq : (s.place p).Fits q) (j : Option ι) :
    (s.place j).Fits (Function.update qplace p q j) := by
  have hfits := fits_update (p := p) h hq j
  rwa [Function.update_eq_self] at hfits

/-! ## What a step does -/

/-- The queue after a push, and after a pop. -/
def pushed (que : BlockQueue.State (Option ι) Line) (p : Option ι) (target : Option (Option ι))
    (line : Line) : BlockQueue.State (Option ι) Line :=
  { (que.notifyOne true target).goto p (.idle (some true)) with
    queue := { que.queue with q := que.queue.q ++ [line] }, pushed := que.pushed ++ [line] }

def popped (que : BlockQueue.State (Option ι) Line) (p : Option ι) (target : Option (Option ι))
    (line : Line) (rest : List Line) : BlockQueue.State (Option ι) Line :=
  { (que.notifyOne false target).goto p (.idle (some true)) with
    queue := { que.queue with q := rest }, popped := que.popped ++ [line] }

section Result

variable {que : BlockQueue.State (Option ι) Line} {ret : Option Bool} {c : BlockQueue.Call Line}
  {stage : BlockQueue.Stage}

theorem goto_self {q : BlockQueue.Place Line} : (que.goto p q).place p = q := by
  show Function.update que.place p q p = q
  rw [Function.update_self]

theorem pushed_self : (pushed que p target line).place p = .idle (some true) := by
  show Function.update _ p _ p = _
  rw [Function.update_self]

theorem popped_self {rest : List Line} :
    (popped que p target line rest).place p = .idle (some true) := by
  show Function.update _ p _ p = _
  rw [Function.update_self]

omit [DecidableEq ι] in
theorem result_of_idle (h : que.place p = .idle ret) : result que p = ret := by
  rw [result, h]

omit [DecidableEq ι] in
theorem result_of_within (h : que.place p = .within c stage) : result que p = none := by
  rw [result, h]

end Result

/-- **All that a step can do.** -/
inductive Does (abi : Abi (Guarded (Option ι))) (s : State ι) : Op ι → State ι → Prop
  | enter {i : ι} {r : Record} {rotates : Bool} (hi : s.place (some i) = .idle) :
      Does abi s (.enter i r rotates)
        (s.goto (some i) (if rotates then .rotating r else .arriving r))
  | lockRotation {i : ι} {r : Record} (hi : s.place (some i) = .rotating r)
      (hfree : s.holder = none) :
      Does abi s (.lockRotation i) { s.goto (some i) (.reopening r) with holder := some (some i) }
  | reopen {i : ι} {r : Record} {target : Option (Option ι)}
      (hi : s.place (some i) = .reopening r) (hque : s.hasQue = true)
      (ht : (BlockQueue.cond true).Picks s.que.place target) :
      Does abi s (.reopen i target true) { s.goto (some i) (.arriving r) with
        que := s.que.notifyOne true target, hasFp := true, holder := none }
  | lock {i : ι} {r : Record} {buf : Buffer} (hi : s.place (some i) = .arriving r)
      (hfree : s.holder = none) (hline : writeLine r.now r.level r.msg s.buf = .ok buf) :
      Does abi s (.lock i) { s.goto (some i) (.testing s.sections) with
        buf := buf, holder := some (some i), sections := s.sections + 1 }
  | full {i : ι} {no : ℕ} (hi : s.place (some i) = .testing no)
      (hfull : s.hasQue = true → s.que.queue.capacity ≤ s.que.queue.q.length) :
      Does abi s (.test i) (s.goto (some i) (.direct no))
  | room {i : ι} {no : ℕ} {text : Bytes} (hi : s.place (some i) = .testing no)
      (hque : s.hasQue = true) (hroom : s.que.queue.q.length < s.que.queue.capacity) :
      Does abi s (.test i) { (s.cleared abi).goto (some i) (.pushing ⟨no, text⟩) with
        que := s.que.goto (some i) (.within (.push ⟨no, text⟩) .fresh) }
  | push {i : ι} {line : Line} {target : Option (Option ι)}
      (hi : s.place (some i) = .pushing line)
      (ht : (BlockQueue.cond true).Picks s.que.place target) :
      Does abi s (.push i target) { s.goto (some i) (.clearing line) with
        que := pushed s.que (some i) target line }
  | fputs {i : ι} {no : ℕ} {text : Bytes} (hi : s.place (some i) = .direct no)
      (hfp : s.hasFp = true) :
      Does abi s (.fputs i)
        { s.goto (some i) (.clearing ⟨no, text⟩) with file := s.file ++ [⟨no, text⟩] }
  | clear {i : ι} {line : Line} (hi : s.place (some i) = .clearing line) :
      Does abi s (.clear i) ((s.cleared abi).goto (some i) (.leaving line))
  | unlock {i : ι} {line : Line} (hi : s.place (some i) = .leaving line) :
      Does abi s (.unlock i)
        { s.goto (some i) .idle with holder := none, returned := s.returned ++ [line] }
  | flush {target : Option (Option ι)} (hque : s.hasQue = true)
      (ht : (BlockQueue.cond true).Picks s.que.place target) :
      Does abi s (.flush target) { s with que := s.que.notifyOne true target }
  | wake {p : Option ι} (hp : s.place p = .popping) :
      Does abi s (.wake p) { s with que := s.que.goto p (.within .pop .woken) }
  | callPop (hp : s.place none = .looping) (hque : s.hasQue = true) :
      Does abi s .callPop { s.goto none .popping with
        que := s.que.goto none (.within .pop .fresh) }
  | waits {target : Option (Option ι)} (hp : s.place none = .popping) :
      Does abi s (.pop target) { s with que := s.que.goto none (.within .pop .parked) }
  | takes {target : Option (Option ι)} {line : Line} {rest : List Line}
      (hp : s.place none = .popping) (ht : (BlockQueue.cond false).Picks s.que.place target)
      (hq : s.que.queue.q = line :: rest) :
      Does abi s (.pop target) { s.goto none (.holding line) with
        que := popped s.que none target line rest }
  | lockThread {line : Line} (hp : s.place none = .holding line) (hfree : s.holder = none) :
      Does abi s .lockThread { s.goto none (.writing line) with holder := some none }
  | fputsThread {line : Line} (hp : s.place none = .writing line) (hfp : s.hasFp = true) :
      Does abi s .fputsThread { s.goto none .written with file := s.file ++ [line] }
  | unlockThread (hp : s.place none = .written) :
      Does abi s .unlockThread { s.goto none .looping with holder := none }

variable (abi) in
theorem exec_lock {i : ι} {r : Record} {buf : Buffer} (hi : s.place (some i) = .arriving r)
    (hline : writeLine r.now r.level r.msg s.buf = .ok buf) :
    exec abi s (.lock i) = .ok { s.goto (some i) (.testing s.sections) with
      buf := buf, holder := some (some i), sections := s.sections + 1 } := by
  simp only [exec, hi, hline, ok_bind]
  rfl

variable (abi) in
theorem exec_clear {i : ι} (hi : s.place (some i) = .clearing line) :
    exec abi s (.clear i) = .ok ((s.cleared abi).goto (some i) (.leaving line)) := by
  simp only [exec, hi]
  rfl

variable (abi) in
theorem exec_unlock {i : ι} (hi : s.place (some i) = .leaving line) :
    exec abi s (.unlock i) = .ok
      { s.goto (some i) .idle with holder := none, returned := s.returned ++ [line] } := by
  simp only [exec, hi]

variable (abi) in
/-- The line that is handed to `push` is what is readable in `_buf`. -/
theorem exec_test {i : ι} {no : ℕ} (hi : s.place (some i) = .testing no) (hque : s.hasQue = true)
    (hroom : s.que.queue.q.length < s.que.queue.capacity) (hok : s.buf.Ok) (hb : s.buf.buf ≠ []) :
    exec abi s (.test i) = .ok { (s.cleared abi).goto (some i) (.pushing ⟨no, s.buf.readable⟩) with
      que := s.que.goto (some i) (.within (.push ⟨no, s.buf.readable⟩) .fresh) } := by
  have hfull : ¬ s.que.queue.full = true := by
    rw [BlockQueue.full, decide_eq_true_eq]
    exact not_le.mpr hroom
  simp only [exec, hi, hque, BlockQueue.exec, ok_bind, if_neg hfull,
    hok.retrieveAllTOString_eq hb]
  rfl

namespace Sound

variable (abi) in
/-- **A push finds room**: it returns, and the line is the last of the queue. -/
theorem exec_push (h : Sound s) {i : ι} (hi : s.place (some i) = .pushing line)
    (target : Option (Option ι)) : exec abi s (.push i target) =
      .ok { s.goto (some i) (.clearing line) with que := pushed s.que (some i) target line } := by
  have hplace : s.que.place (some i) = .within (.push line) .fresh := by
    have hfits := h.fits (some i)
    rwa [hi] at hfits
  obtain ⟨que, he, hran⟩ := BlockQueue.exec_run hplace false target
  simp only [exec, hi, he, ok_bind]
  cases hran with
  | parks hopen hblocks => exact absurd (h.room _ _ hi) (not_lt.mpr hblocks)
  | refused hagain hwhy => exact absurd rfl hagain
  | pushed hopen hroom =>
    have hret : result (pushed s.que (some i) target line) (some i) = some true :=
      result_of_idle pushed_self
    rw [← pushed, hret]
    rfl
  | popped hopen hc hq => cases hc

/-- A turn of the write thread in `pop` takes the front of the queue, or waits. -/
theorem does_pop (h : Sound s) (hp : s.place none = .popping)
    (hl : BlockQueue.Legal s.que (.run none false target))
    (he : exec abi s (.pop target) = .ok s') : Does abi s (.pop target) s' := by
  have hfits := h.fits none
  rw [hp] at hfits
  obtain ⟨stage, hplace⟩ := hfits
  obtain ⟨c, stage', hplace', -, ht⟩ := hl
  obtain ⟨rfl, rfl⟩ : c = .pop ∧ stage' = stage := by
    rw [hplace] at hplace'
    cases hplace'
    exact ⟨rfl, rfl⟩
  obtain ⟨que, heq, hran⟩ := BlockQueue.exec_run hplace false target
  simp only [exec, heq, ok_bind] at he
  cases hran with
  | parks hopen hblocks =>
    have hret : result (s.que.goto none (.within .pop .parked)) none = none :=
      result_of_within goto_self
    rw [hret] at he
    cases he
    exact .waits hp
  | refused hagain hwhy =>
    obtain hclosed | ⟨hc, -⟩ := hwhy
    · rw [h.opened] at hclosed
      cases hclosed
    · cases hc
  | @popped _ line rest hopen hc hq =>
    have hret : result (popped s.que none target line rest) none = some true :=
      result_of_idle popped_self
    have hlast : (popped s.que none target line rest).popped.getLast? = some line :=
      List.getLast?_concat
    rw [← popped, hret, hlast] at he
    cases he
    exact .takes hp ht hq

theorem does (h : Sound s) {o : Op ι} (hl : Legal s o) (he : exec abi s o = .ok s') :
    Does abi s o s' := by
  cases o with
  | enter i r rotates =>
    cases he
    exact .enter hl
  | lockRotation i =>
    obtain ⟨⟨r, hi⟩, hfree⟩ := hl
    simp only [exec, hi] at he
    cases he
    exact .lockRotation hi hfree
  | reopen i target opened =>
    obtain ⟨⟨r, hi⟩, ht⟩ := hl
    simp only [exec, hi, BlockQueue.exec, ok_bind] at he
    obtain ⟨u, hque, he⟩ := bind_eq_ok.mp he
    obtain ⟨u', -, he⟩ := bind_eq_ok.mp he
    obtain ⟨u'', hassert, he⟩ := bind_eq_ok.mp he
    obtain rfl := assert_eq_ok hassert
    cases he
    exact .reopen hi (deref_eq_ok hque) ht
  | lock i =>
    obtain ⟨⟨r, hi⟩, hfree⟩ := hl
    simp only [exec, hi] at he
    obtain ⟨buf, hline, he⟩ := bind_eq_ok.mp he
    cases he
    exact .lock hi hfree hline
  | test i =>
    obtain ⟨no, hi⟩ := hl
    simp only [exec, hi, BlockQueue.exec, ok_bind] at he
    by_cases hque : s.hasQue = true
    · rw [if_pos hque] at he
      by_cases hfull : s.que.queue.full = true
      · rw [if_pos hfull] at he
        cases he
        exact .full hi fun _ => of_decide_eq_true hfull
      · rw [if_neg hfull] at he
        obtain ⟨⟨text, left⟩, hstring, he⟩ := bind_eq_ok.mp he
        cases Buffer.of_retrieveAllTOString hstring
        cases he
        rw [BlockQueue.full, decide_eq_true_eq, not_le] at hfull
        exact .room hi hque hfull
    · rw [if_neg hque] at he
      cases he
      exact .full hi fun h => absurd h hque
  | push i target =>
    obtain ⟨⟨line, hi⟩, c, stage, hplace, -, ht⟩ := hl
    rw [h.exec_push abi hi] at he
    cases he
    have hfits := h.fits (some i)
    rw [hi, hplace] at hfits
    cases hfits
    exact .push hi ht
  | fputs i =>
    obtain ⟨no, hi⟩ := hl
    simp only [exec, hi] at he
    obtain ⟨text, -, he⟩ := bind_eq_ok.mp he
    obtain ⟨u, hfp, he⟩ := bind_eq_ok.mp he
    cases he
    exact .fputs hi (deref_eq_ok hfp)
  | clear i =>
    obtain ⟨line, hi⟩ := hl
    simp only [exec, hi] at he
    cases he
    exact .clear hi
  | unlock i =>
    obtain ⟨line, hi⟩ := hl
    simp only [exec, hi] at he
    cases he
    exact .unlock hi
  | flush target =>
    obtain ⟨u, hque, he⟩ := bind_eq_ok.mp he
    cases he
    exact .flush (deref_eq_ok hque) hl
  | wake p =>
    obtain ⟨c, hplace⟩ := hl
    have hfits := h.fits p
    rw [hplace] at hfits
    obtain ⟨hp, rfl⟩ := hfits.popping
    simp only [exec, BlockQueue.exec_wake hplace, ok_bind] at he
    cases he
    exact .wake hp
  | callPop =>
    obtain ⟨u, hque, he⟩ := bind_eq_ok.mp he
    cases he
    exact .callPop hl (deref_eq_ok hque)
  | pop target => exact h.does_pop hl.1 hl.2 he
  | lockThread =>
    obtain ⟨⟨line, hp⟩, hfree⟩ := hl
    simp only [exec, hp] at he
    cases he
    exact .lockThread hp hfree
  | fputsThread =>
    obtain ⟨line, hp⟩ := hl
    simp only [exec, hp] at he
    obtain ⟨u, hfp, he⟩ := bind_eq_ok.mp he
    cases he
    exact .fputsThread hp (deref_eq_ok hfp)
  | unlockThread =>
    cases he
    exact .unlockThread hl

/-! ### The invariant is kept -/

omit [DecidableEq ι] in
theorem fits_of (h : Sound s) (hp : s.place p = a) : a.Fits (s.que.place p) :=
  hp ▸ h.fits p

/-- A step to a place outside `pop`. -/
theorem apart_goto (h : Sound s) (ha : a ≠ .popping) (i : ι) :
    Function.update s.place p a (some i) ≠ .popping := by
  obtain hp | hp := eq_or_ne (some i) p
  · rwa [hp, Function.update_self]
  · rw [Function.update_of_ne hp]
    exact h.apart i

/-- A step to a place outside `push`. -/
theorem room_goto (h : Sound s) (ha : ∀ line, a ≠ .pushing line) (j : Option ι) (line : Line)
    (hj : Function.update s.place p a j = .pushing line) :
    s.que.queue.q.length < s.que.queue.capacity :=
  Threads.update_forall
    (Q := fun a => ∀ line, a = Place.pushing line → s.que.queue.q.length < s.que.queue.capacity)
    h.room (fun line hline => absurd hline (ha line)) j line hj

/-- A step of one thread in the log alone, to a place outside `push` and `pop`. -/
theorem moved (h : Sound s) (hque : s'.que = s.que)
    (hplace : s'.place = Function.update s.place p a) (hidle : ∃ ret, s.que.place p = .idle ret)
    (hkept : Kept s') (hpop : a ≠ .popping) (hpush : ∀ line, a ≠ .pushing line) : Sound s' := by
  obtain ⟨guarded, que, place, file, sections, returned⟩ := s'
  obtain rfl : que = s.que := hque
  obtain rfl : place = Function.update s.place p a := hplace
  exact ⟨h.opened, fits_goto h.fits ((Place.fits_iff hpush hpop).mpr hidle), hkept,
    h.apart_goto hpop, h.room_goto hpush⟩

omit [DecidableEq ι] in
theorem cleared (hc : Clears abi) (h : Sound s) : Sound (s.cleared abi) :=
  ⟨h.opened, h.fits, h.kept.cleared hc, h.apart, h.room⟩

/-- **Every step keeps the invariant.** -/
theorem step (hc : Clears abi) (h : Sound s) {o : Op ι} (hd : Does abi s o s') : Sound s' := by
  cases hd with
  | @enter i r rotates hi =>
    have hfits := h.fits_of hi
    cases rotates with
    | false =>
      exact h.moved rfl rfl hfits (h.kept.stay rfl rfl rfl (by rw [hi]; rfl) nofun)
        Place.noConfusion fun _ => Place.noConfusion
    | true =>
      exact h.moved rfl rfl hfits (h.kept.stay rfl rfl rfl (by rw [hi]; rfl) nofun)
        Place.noConfusion fun _ => Place.noConfusion
  | lockRotation hi hfree =>
    exact h.moved rfl rfl (h.fits_of hi) (h.kept.take hfree rfl rfl rfl rfl rfl) Place.noConfusion
      fun _ => Place.noConfusion
  | @reopen i r target hi hque ht =>
    have hfits := fits_notifyOne h.fits ht
    have hplace := hfits (some i)
    rw [hi] at hplace
    exact ⟨h.opened, fits_goto hfits hplace, h.kept.leave (by rw [hi]; rfl) rfl rfl rfl rfl,
      h.apart_goto Place.noConfusion, h.room_goto fun _ => Place.noConfusion⟩
  | lock hi hfree hline =>
    exact h.moved rfl rfl (h.fits_of hi)
      (h.kept.make (ne_nil_of_writeLine hline) hfree rfl rfl rfl) Place.noConfusion
      fun _ => Place.noConfusion
  | full hi =>
    exact h.moved rfl rfl (h.fits_of hi)
      (h.kept.stay rfl rfl rfl (by rw [hi]; rfl) fun _ => by rw [hi]; rfl) Place.noConfusion
      fun _ => Place.noConfusion
  | @room i no text hi hque hroom =>
    exact ⟨h.opened, fits_update h.fits rfl,
      (h.kept.cleared hc).stay (p := some i) (a := .pushing ⟨no, text⟩) rfl rfl rfl
        (by show _ = (s.place _).holds; rw [hi]; rfl)
        fun _ => by show (s.place _).hands = _; rw [hi]; rfl,
      h.apart_goto Place.noConfusion, fun _ _ _ => hroom⟩
  | @push i line target hi ht =>
    have hkept : Kept { s.goto (some i) (.clearing line) with
        que := pushed s.que (some i) target line } :=
      h.kept.stay rfl rfl rfl (by rw [hi]; rfl) fun _ => by rw [hi]; rfl
    refine ⟨h.opened, fits_update (fits_notifyOne h.fits ht) ⟨some true, rfl⟩, hkept,
      h.apart_goto Place.noConfusion,
      fun j line' (hj : Function.update s.place (some i) (.clearing line) j = _) => ?_⟩
    -- Whoever else were in `push` would have a line in `_buf` as well.
    have hself : Function.update s.place (some i) (.clearing line) (some i) = .clearing line :=
      Function.update_self ..
    obtain rfl : j = some i := hkept.lone _ _ (by
      show (Function.update s.place (some i) (.clearing line) j).hands = true
      rw [hj]
      rfl) (by
      show (Function.update s.place (some i) (.clearing line) (some i)).hands = true
      rw [hself]
      rfl)
    cases hself.symm.trans hj
  | fputs hi =>
    exact h.moved rfl rfl (h.fits_of hi)
      (h.kept.stay rfl rfl rfl (by rw [hi]; rfl) fun _ => by rw [hi]; rfl) Place.noConfusion
      fun _ => Place.noConfusion
  | @clear i line hi =>
    exact (h.cleared hc).moved rfl rfl (h.fits_of hi)
      ((h.kept.cleared hc).stay (p := some i) (a := .leaving line) rfl rfl rfl
        (by show _ = (s.place _).holds; rw [hi]; rfl)
        fun _ => by show (s.place _).hands = _; rw [hi]; rfl) Place.noConfusion
      fun _ => Place.noConfusion
  | unlock hi =>
    exact h.moved rfl rfl (h.fits_of hi) (h.kept.leave (by rw [hi]; rfl) rfl rfl rfl rfl)
      Place.noConfusion fun _ => Place.noConfusion
  | flush hque ht =>
    exact ⟨h.opened, fits_notifyOne h.fits ht, ⟨h.kept.owns, h.kept.held, h.kept.lone⟩, h.apart,
      h.room⟩
  | wake hp =>
    exact ⟨h.opened, fits_turn h.fits (by rw [hp]; exact ⟨.woken, rfl⟩),
      ⟨h.kept.owns, h.kept.held, h.kept.lone⟩, h.apart, h.room⟩
  | callPop hp =>
    exact ⟨h.opened, fits_update h.fits ⟨.fresh, rfl⟩,
      h.kept.stay rfl rfl rfl (by rw [hp]; rfl) nofun, h.apart,
      h.room_goto fun _ => Place.noConfusion⟩
  | waits hp =>
    exact ⟨h.opened, fits_turn h.fits (by rw [hp]; exact ⟨.parked, rfl⟩),
      ⟨h.kept.owns, h.kept.held, h.kept.lone⟩, h.apart, h.room⟩
  | takes hp ht hq =>
    refine ⟨h.opened, fits_update (fits_notifyOne h.fits ht) ⟨some true, rfl⟩,
      h.kept.stay rfl rfl rfl (by rw [hp]; rfl) nofun, h.apart, fun j line' hj => ?_⟩
    have hroom := h.room_goto (fun _ => Place.noConfusion) j line' hj
    rw [hq] at hroom
    exact (Nat.lt_succ_self _).trans hroom
  | lockThread hp hfree =>
    exact h.moved rfl rfl (h.fits_of hp) (h.kept.take hfree rfl rfl rfl rfl rfl) Place.noConfusion
      fun _ => Place.noConfusion
  | fputsThread hp =>
    exact h.moved rfl rfl (h.fits_of hp) (h.kept.stay rfl rfl rfl (by rw [hp]; rfl) nofun)
      Place.noConfusion fun _ => Place.noConfusion
  | unlockThread hp =>
    exact h.moved rfl rfl (h.fits_of hp) (h.kept.leave (by rw [hp]; rfl) rfl rfl rfl rfl)
      Place.noConfusion fun _ => Place.noConfusion

omit [DecidableEq ι] in
theorem new (capacity : ℕ) : Sound (State.new capacity : State ι) := by
  have hplace : ∀ p, (State.new capacity : State ι).place p
      = if p = none then .looping else .idle :=
    fun _ => rfl
  have howns : Mutex.Owns Place.holds (State.new capacity : State ι).place none := fun p => by
    rw [hplace]
    cases p <;> simp [Place.holds]
  refine ⟨rfl, fun p => ?_, ⟨fun _ => howns, howns.held, howns.lone fun _ => Place.holds_of_hands⟩,
    fun i => Place.noConfusion, fun p line hp => ?_⟩
  · rw [hplace]
    cases p <;> exact ⟨none, rfl⟩
  · rw [hplace] at hp
    cases p <;> cases hp

theorem reach (hc : Clears abi) (h : (machine ι abi).Reach s) : Sound s :=
  h.invariant (fun _ ⟨capacity, _, hs⟩ => hs ▸ new capacity)
    fun _ _ _ hs hl he => hs.step hc (hs.does hl he)

end Sound

end Log

end WebServer
