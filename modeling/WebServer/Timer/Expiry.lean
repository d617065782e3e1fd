import WebServer.Machinery.Word
import WebServer.Timer.Runs

/-!
# Timer/Expiry — the rest of `src/src/timer/timer.cc`: nodes that are due are fired and deleted

`clock n` is the `n`-th reading of the clock that a call makes.  A call that fires a callback
answers which; what a callback does is not part of the timer.

Deletion at the root ends in `_siftup(0)`, which has no case for the root and reads far outside the
vector.  So a tick that finds its root due never returns (`tick_due`), and `getNextTick` is exact
when nothing is due and at no other time (`getNextTick_exact_iff`).
-/

namespace WebServer

namespace Timer

variable {κ : Type}

/-- `std::chrono::duration_cast<Ms>(d).count()`. -/
def millis (d : ℤ) : ℤ := d.tdiv 1000000

/-- `tcb()`: the callback that is run. -/
def call : Option κ → Exec κ
  | some cb => .ok cb
  | none => .error .badFunctionCall

variable (t : Timer κ)

def delete (i : ℕ) : Exec (Timer κ) := do
  assert (i < t.heap.length) "i >= 0 and i < _heap.size()"
  let t ← t.swap i (t.heap.length - 1)
  let back ← t.nodeAt (t.heap.length - 1)
  let t := { t with ref := Function.update t.ref back.id none }
  let t := { t with heap := t.heap.dropLast }
  let t ← t.siftup i
  t.siftdown i

def pop : Exec (Timer κ) := do
  assert (t.heap ≠ []) "!_heap.empty()"
  t.delete 0

/-- The callback it runs, if the id is known, and the timer it leaves. -/
def doWork (id : ℤ) : Exec (Option κ × Timer κ) :=
  match t.ref id with
  | none => return (none, t)
  | some i => do
    let node ← t.nodeAt i
    let cb ← call node.tcb
    let t ← t.delete i
    return (some cb, t)

/-- One pass of the loop of `_tick`.  Every pass before it has read the clock once and fired one
callback. -/
def tickPass (clock : ℕ → ℤ) (s : Timer κ × List (ℤ × κ)) :
    Exec (Loop.Pass (Timer κ × List (ℤ × κ)) (Timer κ × List (ℤ × κ))) :=
  let (t, fired) := s
  if t.heap = [] then return .exit (t, fired)
  else do
    let node ← t.nodeAt 0
    if 0 < millis (node.expire - clock fired.length) then return .exit (t, fired)
    else
      let cb ← call node.tcb
      let t ← t.pop
      return .next (t, fired ++ [(node.id, cb)])

/-- The timer that is left, and the ids and callbacks that were fired, in their order. -/
def tick (clock : ℕ → ℤ) : Exec (Timer κ × List (ℤ × κ)) :=
  Loop.run .running (tickPass clock) (t.heap.length + 1) (t, [])

/-- What it returns, what was fired, and the timer that is left.  `res` is a `size_t`, which is
never below 0, and it is returned as an `int`. -/
def getNextTick (clock : ℕ → ℤ) : Exec (ℤ × List (ℤ × κ) × Timer κ) := do
  let (t, fired) ← t.tick clock
  let res : ℤ :=
    match t.heap with
    | [] => -1 % 2 ^ 64
    | node :: _ => millis (node.expire - clock (fired.length + 1)) % 2 ^ 64
  return (Word.int32 (if res < 0 then 0 else res), fired, t)

/-! ## A call leaves a heap that is not empty, and not too long for its indices -/

/-- The most elements a vector can have. -/
def maxSize : ℕ := 2 ^ 63 - 1

variable {t} {t' : Timer κ} {i j : ℕ} {id now : ℤ} {clock : ℕ → ℤ} {fired : List (ℤ × κ)}

theorem swap_length (h : t.swap i j = .ok t') : t'.heap.length = t.heap.length := by
  obtain ⟨-, -, h⟩ := bind_eq_ok.mp h
  obtain ⟨-, -, h⟩ := bind_eq_ok.mp h
  obtain ⟨a, -, h⟩ := bind_eq_ok.mp h
  obtain ⟨b, -, h⟩ := bind_eq_ok.mp h
  obtain ⟨a', -, h⟩ := bind_eq_ok.mp h
  obtain ⟨b', -, h⟩ := bind_eq_ok.mp h
  rw [← Except.ok.inj h]
  simp [setRef]

/-- A pass leaves with the timer as it is, or exchanges two nodes and goes on. -/
def Swaps (body : Timer κ × ℕ → Exec (Loop.Pass (Timer κ × ℕ) (Timer κ))) : Prop :=
  ∀ t i p, body (t, i) = .ok p →
    p = .exit t ∨ ∃ j t', t.swap i j = .ok t' ∧ p = .next (t', j)

/-- How both passes end, behind their comparison `c`. -/
theorem exit_or_swap {c : Bool} {p : Loop.Pass (Timer κ × ℕ) (Timer κ)}
    (h : (if c then return .exit t else do
      let t' ← t.swap i j
      return .next (t', j) : Exec (Loop.Pass _ _)) = .ok p) :
    p = .exit t ∨ ∃ j t', t.swap i j = .ok t' ∧ p = .next (t', j) := by
  split at h
  · exact .inl (Except.ok.inj h).symm
  · obtain ⟨t', hswap, h⟩ := bind_eq_ok.mp h
    exact .inr ⟨j, t', hswap, (Except.ok.inj h).symm⟩

theorem swaps_siftupPass : Swaps (κ := κ) siftupPass := by
  intro t i p h
  obtain ⟨a, -, h⟩ := bind_eq_ok.mp h
  obtain ⟨b, -, h⟩ := bind_eq_ok.mp h
  exact exit_or_swap h

theorem swaps_siftdownPass : Swaps (κ := κ) siftdownPass := by
  intro t i p h
  rw [siftdownPass] at h
  split at h
  · obtain ⟨j, -, h⟩ := bind_eq_ok.mp h
    obtain ⟨a, -, h⟩ := bind_eq_ok.mp h
    obtain ⟨b, -, h⟩ := bind_eq_ok.mp h
    exact exit_or_swap h
  · exact .inl (Except.ok.inj h).symm

theorem Swaps.length {body : Timer κ × ℕ → Exec (Loop.Pass (Timer κ × ℕ) (Timer κ))}
    (hbody : Swaps body) {n : ℕ} (h : Loop.run .running body n (t, i) = .ok t') :
    t'.heap.length = t.heap.length := by
  refine Loop.run_ok (I := fun s => s.1.heap.length = t.heap.length)
    (Q := fun r => r.heap.length = t.heap.length) ?_ ?_ n _ rfl h
  · rintro ⟨t₁, i⟩ s' hs hpass
    obtain hexit | ⟨j, t₂, hswap, hnext⟩ := hbody _ _ _ hpass
    · cases hexit
    · cases hnext
      exact (swap_length hswap).trans hs
  · rintro ⟨t₁, i⟩ r hs hpass
    obtain hexit | ⟨j, t₂, hswap, hnext⟩ := hbody _ _ _ hpass
    · cases hexit
      exact hs
    · cases hnext

theorem siftup_length (h : t.siftup i = .ok t') :
    i < t.heap.length ∧ t'.heap.length = t.heap.length := by
  obtain ⟨_, hi, h⟩ := bind_eq_ok.mp h
  exact ⟨assert_eq_ok hi, swaps_siftupPass.length h⟩

theorem siftdown_length (h : t.siftdown i = .ok t') : t'.heap.length = t.heap.length := by
  obtain ⟨_, -, h⟩ := bind_eq_ok.mp h
  exact swaps_siftdownPass.length h

/-- **What a deletion leaves is one shorter, and not empty**: `_siftup` asserts as much. -/
theorem delete_length (h : t.delete i = .ok t') :
    0 < t'.heap.length ∧ t'.heap.length + 1 = t.heap.length := by
  obtain ⟨_, hi, h⟩ := bind_eq_ok.mp h
  obtain ⟨t₁, hswap, h⟩ := bind_eq_ok.mp h
  obtain ⟨back, -, h⟩ := bind_eq_ok.mp h
  obtain ⟨t₂, hup, hdown⟩ := bind_eq_ok.mp h
  obtain ⟨hlt, hsame⟩ := siftup_length hup
  rw [siftdown_length hdown, hsame, List.length_dropLast, swap_length hswap]
  rw [List.length_dropLast, swap_length hswap] at hlt
  omega

theorem doWork_length {ran : Option κ} (h : t.doWork id = .ok (ran, t'))
    (hpos : 0 < t.heap.length) :
    0 < t'.heap.length ∧ t'.heap.length ≤ t.heap.length := by
  rw [doWork] at h
  split at h
  · cases h
    exact ⟨hpos, le_rfl⟩
  · obtain ⟨node, -, h⟩ := bind_eq_ok.mp h
    obtain ⟨cb, -, h⟩ := bind_eq_ok.mp h
    obtain ⟨t₁, hdelete, h⟩ := bind_eq_ok.mp h
    cases h
    have := delete_length hdelete
    omega

theorem add_length {timeout : ℤ} {tcb : Option κ} (h : t.add id now timeout tcb = .ok t') :
    t.heap.length ≤ t'.heap.length ∧ t'.heap.length ≤ t.heap.length + 1 := by
  obtain ⟨_, -, h⟩ := bind_eq_ok.mp h
  split at h
  · obtain ⟨-, hlen⟩ := siftup_length h
    simp only [setRef, List.length_append, List.length_singleton] at hlen
    omega
  · obtain ⟨node, -, h⟩ := bind_eq_ok.mp h
    cases h
    simp

theorem adjustExpire_length {timeout : ℤ} (h : t.adjustExpire id now timeout = .ok t') :
    t'.heap.length = t.heap.length := by
  rw [adjustExpire] at h
  split at h
  · cases h
  · obtain ⟨node, -, h⟩ := bind_eq_ok.mp h
    rw [siftdown_length h, List.length_set]

/-! ## A tick whose root is due does not return -/

/-- **`_siftup` has no case for the root**: it reads its parent far outside the vector. -/
theorem siftupPass_zero (hmax : t.heap.length ≤ maxSize) :
    siftupPass (t, 0) = .error .outOfBounds := by
  have hparent : t.nodeAt (parent 0) = .error .outOfBounds := by
    rw [nodeAt, List.getElem?_eq_none]
    exact hmax
  rw [siftupPass, hparent, error_bind]

theorem siftup_zero (hpos : 0 < t.heap.length) (hmax : t.heap.length ≤ maxSize) :
    t.siftup 0 = .error .outOfBounds := by
  rw [siftup, assert_true hpos, ok_bind]
  exact Loop.run_error (siftupPass_zero hmax) _

theorem delete_zero_ne_ok (hmax : t.heap.length ≤ maxSize) : t.delete 0 ≠ .ok t' := by
  intro h
  obtain ⟨_, -, h⟩ := bind_eq_ok.mp h
  obtain ⟨t₁, hswap, h⟩ := bind_eq_ok.mp h
  obtain ⟨back, -, h⟩ := bind_eq_ok.mp h
  obtain ⟨t₂, hup, -⟩ := bind_eq_ok.mp h
  have hlen := (siftup_length hup).1
  rw [siftup_zero hlen] at hup
  · cases hup
  · have := swap_length hswap
    simp only [List.length_dropLast]
    omega

/-- Nothing is left, in whole milliseconds. -/
def Due (e now : ℤ) : Prop := millis (e - now) ≤ 0

instance (e now : ℤ) : Decidable (Due e now) := inferInstanceAs (Decidable (_ ≤ _))

theorem heap_ne_nil {node : TimerNode κ} (hroot : t.heap[0]? = some node) : t.heap ≠ [] := by
  intro hnil
  rw [hnil] at hroot
  cases hroot

theorem tickPass_due {node : TimerNode κ} (hroot : t.heap[0]? = some node)
    (hmax : t.heap.length ≤ maxSize) (hdue : Due node.expire (clock fired.length))
    {p : Loop.Pass (Timer κ × List (ℤ × κ)) (Timer κ × List (ℤ × κ))} :
    tickPass clock (t, fired) ≠ .ok p := by
  intro h
  rw [tickPass, if_neg (heap_ne_nil hroot), nodeAt_eq hroot, ok_bind, if_neg (not_lt.mpr hdue)] at h
  obtain ⟨cb, -, h⟩ := bind_eq_ok.mp h
  obtain ⟨t₁, hpop, -⟩ := bind_eq_ok.mp h
  obtain ⟨_, -, hdelete⟩ := bind_eq_ok.mp hpop
  exact delete_zero_ne_ok hmax hdelete

/-- **A tick that finds its root due does not return.** -/
theorem tick_due {node : TimerNode κ} (hroot : t.heap[0]? = some node)
    (hmax : t.heap.length ≤ maxSize) (hdue : Due node.expire (clock 0))
    {r : Timer κ × List (ℤ × κ)} : t.tick clock ≠ .ok r := by
  intro h
  rcases hb : tickPass clock (t, []) with e | p
  · rw [tick, Loop.run_error hb] at h
    cases h
  · exact tickPass_due hroot hmax hdue hb

/-- A tick that finds its root not due does nothing. -/
theorem tick_not_due {node : TimerNode κ} (hroot : t.heap[0]? = some node)
    (hdue : ¬ Due node.expire (clock 0)) : t.tick clock = .ok (t, []) := by
  have hlater : 0 < millis (node.expire - clock ([] : List (ℤ × κ)).length) := not_le.mp hdue
  refine Loop.run_exit ?_ _
  rw [tickPass, if_neg (heap_ne_nil hroot), nodeAt_eq hroot, ok_bind, if_pos hlater, pure_eq_ok]

/-- **`getNextTick` returns only when the root is not due**, and then it has done nothing. -/
theorem getNextTick_ok {node : TimerNode κ} (hroot : t.heap[0]? = some node)
    (hmax : t.heap.length ≤ maxSize) {res : ℤ} (h : t.getNextTick clock = .ok (res, fired, t')) :
    ¬ Due node.expire (clock 0) ∧ fired = [] ∧ t' = t := by
  obtain ⟨⟨t₁, fired₁⟩, htick, h⟩ := bind_eq_ok.mp h
  have hdue : ¬ Due node.expire (clock 0) := fun hdue => tick_due hroot hmax hdue htick
  rw [tick_not_due hroot hdue] at htick
  cases htick
  cases h
  exact ⟨hdue, rfl, rfl⟩

theorem getNextTick_not_due {node : TimerNode κ} (hroot : t.heap[0]? = some node)
    (hdue : ¬ Due node.expire (clock 0)) : ∃ res, t.getNextTick clock = .ok (res, [], t) := by
  rw [getNextTick, tick_not_due hroot hdue, ok_bind]
  exact ⟨_, rfl⟩

/-- A blank root that is due has an empty callback. -/
theorem getNextTick_blank (hroot : t.heap[0]? = some blank) (hdue : Due 0 (clock 0)) :
    t.getNextTick clock = .error .badFunctionCall := by
  have hlate : ¬ 0 < millis (blank (κ := κ).expire - clock ([] : List (ℤ × κ)).length) :=
    not_lt.mpr hdue
  have hpass : tickPass clock (t, []) = .error .badFunctionCall := by
    rw [tickPass, if_neg (heap_ne_nil hroot), nodeAt_eq hroot, ok_bind, if_neg hlate]
    rfl
  rw [getNextTick, tick, Loop.run_error hpass, error_bind]

/-- **A timer that has been added to and postponed faults on its first tick**: its root is still the
blank node of the constructor, whose deadline is the epoch. -/
theorem getNextTick_of_reach {reg : Registry κ} (h : (machine κ).Reach (reg, t))
    (hnow : 0 ≤ clock 0) : t.getNextTick clock = .error .badFunctionCall := by
  have hkept : Kept reg t := machine_safe.reach h
  refine getNextTick_blank (hkept.blanks 0 (by omega)) ?_
  rw [Due, millis, zero_sub, Int.neg_tdiv]
  have := Int.tdiv_nonneg hnow (by norm_num : (0 : ℤ) ≤ 1000000)
  omega

/-! ## The runs -/

/-- A call of the timer.  The clock stands still during `getNextTick`. -/
inductive Call (κ : Type) where
  | op (o : Op κ)
  | doWork (id : ℤ)
  | getNextTick (now : ℤ)

namespace Call

/-- A vector takes no more elements than it can have. -/
def Legal (t : Timer κ) : Call κ → Prop
  | .op (.add _ _ _ _) => t.heap.length < maxSize
  | _ => True

/-- What a call leaves of the registry and of the timer: an id whose callback has been run is
forgotten. -/
def exec (reg : Registry κ) (t : Timer κ) : Call κ → Exec (Registry κ × Timer κ)
  | op o => do
    let t ← o.exec t
    return (o.spec reg, t)
  | doWork id => do
    let (_, t) ← t.doWork id
    return (Function.update reg id none, t)
  | getNextTick now => do
    let (_, fired, t) ← t.getNextTick fun _ => now
    return (fun id => if id ∈ fired.map Prod.fst then none else reg id, t)

end Call

/-- A timer from its constructor on, called in any way, beside its registry. -/
def calls (κ : Type) : Machine Fault (Registry κ × Timer κ) (Call κ) where
  init s := s = (fun _ => none, new)
  legal s c := c.Legal s.2
  exec s c := c.exec s.1 s.2

variable {reg reg' : Registry κ}

/-- **However it is called, a timer is never empty.** -/
theorem calls_length (h : (calls κ).Reach (reg, t)) :
    0 < t.heap.length ∧ t.heap.length ≤ maxSize := by
  refine h.invariant (I := fun s => 0 < s.2.heap.length ∧ s.2.heap.length ≤ maxSize) ?_ ?_
  · rintro s rfl
    simp [new, maxSize]
  · rintro ⟨reg, t⟩ c ⟨reg', t'⟩ ⟨hpos, hmax⟩ hl he
    dsimp only at hpos hmax ⊢
    change Call.exec reg t c = .ok (reg', t') at he
    cases c with
    | op o =>
      obtain ⟨t₁, hop, he⟩ := bind_eq_ok.mp he
      cases he
      cases o with
      | add id now timeout tcb =>
        have hlt : t.heap.length < maxSize := hl
        have := add_length hop
        omega
      | adjustExpire id now timeout =>
        have := adjustExpire_length hop
        omega
    | doWork id =>
      obtain ⟨⟨ran, t₁⟩, hwork, he⟩ := bind_eq_ok.mp he
      cases he
      have := doWork_length hwork hpos
      omega
    | getNextTick now =>
      obtain ⟨⟨res, fired, t₁⟩, htick, he⟩ := bind_eq_ok.mp he
      cases he
      obtain ⟨node, hroot⟩ := exists_node hpos
      obtain ⟨-, -, rfl⟩ := getNextTick_ok hroot hmax htick
      exact ⟨hpos, hmax⟩

/-! ## What an exact tick would be -/

/-- The node that the index gives for an id. -/
def entry (t : Timer κ) (id : ℤ) : Option (TimerNode κ) := (t.ref id).bind fun i => t.heap[i]?

/-- What was fired, and the timer that is left, are those of an exact tick: the ids that are due,
each once and with its own callback, in the order of their deadlines, and no longer registered;
every other id as it was. -/
structure Expires (reg : Registry κ) (t : Timer κ) (now : ℤ) (fired : List (ℤ × κ))
    (t' : Timer κ) : Prop where
  nodup : (fired.map Prod.fst).Nodup
  due : ∀ id, id ∈ fired.map Prod.fst ↔ ∃ e cb, reg id = some (e, cb) ∧ Due e now
  callbacks : ∀ r ∈ fired, ∃ e, reg r.1 = some (e, some r.2)
  ordered : fired.Pairwise fun a b =>
    ∀ e cb e' cb', reg a.1 = some (e, cb) → reg b.1 = some (e', cb') → e ≤ e'
  unregistered : ∀ id ∈ fired.map Prod.fst, t'.ref id = none
  others : ∀ id, id ∉ fired.map Prod.fst → t'.entry id = t.entry id

/-- `getNextTick` returns, and is exact. -/
def TickExact (reg : Registry κ) (t : Timer κ) (now : ℤ) : Prop :=
  ∃ res fired t', (t.getNextTick fun _ => now) = .ok (res, fired, t') ∧
    Expires reg t now fired t'

/-- **`getNextTick` is exact when neither the root of the heap nor any registered id is due, and at
no other time.** -/
theorem getNextTick_exact_iff (h : (calls κ).Reach (reg, t)) (now : ℤ) :
    TickExact reg t now ↔
      (∀ node, t.heap[0]? = some node → ¬ Due node.expire now) ∧
        ∀ id e cb, reg id = some (e, cb) → ¬ Due e now := by
  obtain ⟨hpos, hmax⟩ := calls_length h
  obtain ⟨root, hroot⟩ := exists_node hpos
  constructor
  · rintro ⟨res, fired, t', hok, hexp⟩
    obtain ⟨hdue, rfl, rfl⟩ := getNextTick_ok hroot hmax hok
    refine ⟨fun node hnode => ?_, fun id e cb hreg hd => ?_⟩
    · rwa [← Option.some.inj (hroot.symm.trans hnode)]
    · exact List.not_mem_nil ((hexp.due id).mpr ⟨e, cb, hreg, hd⟩)
  · rintro ⟨hfront, hreg⟩
    obtain ⟨res, hok⟩ : ∃ res, (t.getNextTick fun _ => now) = .ok (res, [], t) :=
      getNextTick_not_due hroot (hfront root hroot)
    refine ⟨res, [], t, hok, ⟨List.nodup_nil, fun id => ?_, by simp, .nil, by simp, by simp⟩⟩
    refine iff_of_false List.not_mem_nil ?_
    rintro ⟨e, cb, hid, hd⟩
    exact hreg id e cb hid hd

theorem getNextTick_exact_iff_new : TickExact (fun _ => none) (new : Timer ℕ) (-1000000) := by
  refine (getNextTick_exact_iff (.init rfl) _).mpr ⟨fun node hnode => ?_, by simp⟩
  cases hnode
  decide

/-- An id that is due in a minute, and the clock a minute later. -/
theorem not_tickExact_minute : ∃ (reg : Registry ℕ) (t : Timer ℕ), (calls ℕ).Reach (reg, t) ∧
    reg 3 = some (60000000000, some 30) ∧ Due 60000000000 60000000000 ∧
    (t.getNextTick fun _ => 60000000000) = .error .badFunctionCall ∧
    ¬ TickExact reg t 60000000000 := by
  have hreach : (calls ℕ).Reach (_, _) :=
    .step (o := .op (.add 3 0 60000 (some 30))) (.init rfl)
      (show 64 < maxSize by decide) rfl
  refine ⟨_, _, hreach, rfl, by decide, getNextTick_blank rfl (by decide), ?_⟩
  rintro ⟨res, fired, t', hok, -⟩
  rw [getNextTick_blank rfl (by decide)] at hok
  cases hok

end Timer

end WebServer
