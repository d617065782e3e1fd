import WebServer.Log.Rotation
import WebServer.Machinery.Machine

/-!
# Log/Crowd — how many lines go to one file, with any number of threads

Threads call `write` in synchronous mode.  A call makes three steps: the test, which takes no lock,
the opening of another file if the test asks for it, and the line.  A call that has made its test
before the counter came to a multiple of `_MAX_LINES` would put its line into a full file; but no
file gets that far, since no line follows the first where its `retrieveAll` leaves no vector.
-/

namespace WebServer

namespace Log

/-- Where a thread stands in `write`. -/
inductive Spot where
  | idle
  /-- The test has asked for another file. -/
  | rotating (path : Bytes) (r : Record)
  /-- It is about to write its line. -/
  | arriving (r : Record)

structure Crowd (ι : Type) where
  log : Writer
  spot : ι → Spot

namespace Crowd

variable {ι : Type} [DecidableEq ι]

inductive Op (ι : Type) where
  | enter (i : ι) (r : Record)
  | reopen (i : ι)
  | put (i : ι)

def Legal (s : Crowd ι) : Op ι → Prop
  | .enter i _ => s.spot i = .idle
  | .reopen i => ∃ path r, s.spot i = .rotating path r
  | .put i => ∃ r, s.spot i = .arriving r

def exec (abi : Abi Members) (s : Crowd ι) : Op ι → Exec (Crowd ι)
  | .enter i r =>
    match s.log.test r.now with
    | (none, log) => .ok ⟨log, Function.update s.spot i (.arriving r)⟩
    | (some path, log) => .ok ⟨log, Function.update s.spot i (.rotating path r)⟩
  | .reopen i =>
    match s.spot i with
    | .rotating path r => do
      let log ← s.log.reopen path
      return ⟨log, Function.update s.spot i (.arriving r)⟩
    | _ => .ok s
  | .put i =>
    match s.spot i with
    | .arriving r => do
      let log ← s.log.put abi r
      return ⟨log, Function.update s.spot i .idle⟩
    | _ => .ok s

/-- The log is opened by `init`, and then the threads call `write`. -/
def machine (ι : Type) [DecidableEq ι] (abi : Abi Members) :
    Machine Fault (Crowd ι) (Op ι) where
  init s := ∃ dirname filename start, s = ⟨.init dirname filename start, fun _ => .idle⟩
  legal := Legal
  exec := exec abi

variable {abi : Abi Members} {s s' : Crowd ι} {i : ι} {r : Record} {o : Op ι}

/-! ## The steps -/

/-- The test of a call leaves the members and the files as they are. -/
theorem exec_enter (h : s.exec abi (.enter i r) = .ok s') :
    s'.log.toMembers = s.log.toMembers ∧ s'.log.files = s.log.files := by
  rw [exec] at h
  obtain ⟨-, -, htest⟩ | ⟨rest, ⟨-, -, htest⟩ | ⟨-, htest⟩⟩ := s.log.test_cases r.now
  all_goals
    rw [htest] at h
    cases h
    exact ⟨rfl, rfl⟩

/-- Another file is empty. -/
theorem exec_reopen (hl : Legal s (.reopen i)) (h : s.exec abi (.reopen i) = .ok s') :
    ∃ path, s'.log.toMembers = s.log.toMembers ∧ s'.log.files = (path, []) :: s.log.files := by
  obtain ⟨path, r, hi⟩ := hl
  simp only [exec, hi] at h
  obtain ⟨log, hopen, h⟩ := bind_eq_ok.mp h
  obtain ⟨-, rfl⟩ := Writer.reopen_eq_ok hopen
  cases h
  exact ⟨path, rfl, rfl⟩

theorem exec_put (hl : Legal s (.put i)) (h : s.exec abi (.put i) = .ok s') :
    ∃ r, s.log.put abi r = .ok s'.log := by
  obtain ⟨r, hi⟩ := hl
  simp only [exec, hi] at h
  obtain ⟨log, hput, h⟩ := bind_eq_ok.mp h
  cases h
  exact ⟨r, hput⟩

/-! ## One line -/

/-- **The invariant**: `_buf` is as the constructor left it, and there is no line, or there is no
vector, and a line at most. -/
inductive Sparse (log : Writer) : Prop
  | new (hbuf : log.buf = .new 1024) (hfiles : ∀ f ∈ log.files, f.2 = [])
  | gone (hbuf : log.buf.buf = []) (hfiles : ∀ f ∈ log.files, f.2.length ≤ 1)

variable {log log' : Writer}

theorem Sparse.length_le (h : Sparse log) : ∀ f ∈ log.files, f.2.length ≤ 1 := by
  cases h with
  | new hbuf hfiles =>
    intro f hf
    rw [hfiles f hf]
    exact Nat.zero_le 1
  | gone hbuf hfiles => exact hfiles

/-- A step that writes no line. -/
theorem Sparse.quiet (h : Sparse log) (hmembers : log'.toMembers = log.toMembers)
    (hfiles : ∀ f ∈ log'.files, f.2 = [] ∨ f ∈ log.files) : Sparse log' := by
  have hbuf : log'.buf = log.buf := congrArg Members.buf hmembers
  cases h with
  | new hnew hempty =>
    exact .new (hbuf.trans hnew) fun f hf => (hfiles f hf).elim id fun hold => hempty f hold
  | gone hgone hone =>
    refine .gone (hbuf ▸ hgone) fun f hf => (hfiles f hf).elim (fun hnil => ?_) fun hold =>
      hone f hold
    rw [hnil]
    exact Nat.zero_le 1

/-- **The first line is the last.** -/
theorem Sparse.put (hv : Voids abi Members.buf) (h : Sparse log) (he : log.put abi r = .ok log') :
    Sparse log' := by
  cases h with
  | new hbuf hfiles =>
    refine .gone (Writer.put_voids hv hbuf he) ?_
    obtain ⟨-, -, -, path, lines, files, buf, text, hopen, -, rfl⟩ := Writer.put_eq_ok he
    rw [hopen, List.forall_mem_cons] at hfiles
    obtain ⟨hlines, hfiles⟩ := hfiles
    obtain rfl : lines = [] := hlines
    refine List.forall_mem_cons.mpr ⟨le_rfl, fun f hf => ?_⟩
    rw [hfiles f hf]
    exact Nat.zero_le 1
  | gone hbuf hfiles =>
    obtain ⟨⟨buf, hline, -⟩, -⟩ := Writer.put_eq_ok he
    exact absurd hbuf (ne_nil_of_writeLine hline)

theorem Sparse.step (hv : Voids abi Members.buf) (h : Sparse s.log) (hl : Legal s o)
    (he : s.exec abi o = .ok s') : Sparse s'.log := by
  cases o with
  | enter i r =>
    obtain ⟨hmembers, hfiles⟩ := exec_enter he
    exact h.quiet hmembers fun f hf => .inr (hfiles ▸ hf)
  | reopen i =>
    obtain ⟨path, hmembers, hfiles⟩ := exec_reopen hl he
    refine h.quiet hmembers ?_
    rw [hfiles]
    exact List.forall_mem_cons.mpr ⟨.inl rfl, fun f hf => .inr hf⟩
  | put i =>
    obtain ⟨r, hput⟩ := exec_put hl he
    exact h.put hv hput

theorem Sparse.reach (hv : Voids abi Members.buf) (h : (machine ι abi).Reach s) : Sparse s.log :=
  h.invariant (I := fun s => Sparse s.log)
    (fun _ ⟨_, _, _, hs⟩ => hs ▸ .new rfl (List.forall_mem_singleton.mpr rfl))
    fun _ _ _ hs hl he => hs.step hv hl he

end Crowd

end Log

end WebServer
