import WebServer.Log.Members

/-!
# Log/Rotation — which file `Log::write` writes to, in synchronous mode

A file is opened by `init`, and by a `write` that finds another day of the month than the one in
`_today`, or the file full.  `lines_dated` says when each line goes to a file whose name carries
its date: the month and the year are not compared.

A `write` ends with the `retrieveAll` of `_buf`, of which the platform says what it leaves of the
members (`Log/Members`).  Where a vector of 1024 bytes does not outlive it, the second `write` of a
log fails.
-/

namespace WebServer

namespace Log

def MAX_LINES : ℕ := 50000

def LOG_PATH_LEN : ℕ := 256

/-! ## The name of a file -/

/-- A date in the format `%04d_%02d_%02d`. -/
def dateName (now : Now) : Bytes :=
  padded 4 (now.tmYear + 1900) ++ str "_" ++ padded 2 (now.tmMon + 1) ++ str "_" ++
    padded 2 now.tmMday

/-- The string that `snprintf(s, limit, …)` leaves in `s`. -/
def printed (limit : ℕ) (text : Bytes) : Bytes := text.take (limit - 1)

/-- The name of a file in `dirname` carries the date. -/
def Carries (dirname path : Bytes) (now : Now) : Prop := dirname ++ str "/" ++ dateName now <+: path

def SameDate (p q : Now) : Prop :=
  p.tmYear = q.tmYear ∧ p.tmMon = q.tmMon ∧ p.tmMday = q.tmMday

instance (p q : Now) : Decidable (SameDate p q) := inferInstanceAs (Decidable (_ ∧ _))

/-- The name has room for the directory and the date. -/
def HasRoom (dirname : Bytes) (now : Now) : Prop := dirname.length + 1 + (dateName now).length ≤ 254

variable {p q : Now} {s rest dirname path : Bytes}

theorem value_padded (width n : ℕ) : Decimal.value (padded width n) = n := by
  rw [padded, Decimal.value_replicate, Decimal.value_print]

theorem underscore_notMem_padded (width n : ℕ) : (95 : Byte) ∉ padded width n := by
  rw [padded, List.mem_append, not_or]
  constructor
  · intro h
    exact absurd (List.eq_of_mem_replicate h) (by decide)
  · intro h
    exact absurd (Decimal.isDigit_of_mem_print h).2 (by decide)

theorem length_padded_two {n : ℕ} (hn : n < 10 ^ 2) : (padded 2 n).length = 2 := by
  have hle := length_padded_le (k := 2) (by decide) le_rfl hn
  have hge : 2 ≤ (padded 2 n).length := by
    rw [padded, List.length_append, List.length_replicate]
    omega
  omega

theorem dateName_congr (h : SameDate p q) : dateName p = dateName q := by
  rw [dateName, dateName, h.1, h.2.1, h.2.2]

/-- A text is cut at its first underscore in one way. -/
theorem cut_unique {u v t : Bytes} (hu : (95 : Byte) ∉ u) (hv : (95 : Byte) ∉ v)
    (h : u ++ 95 :: s = v ++ 95 :: t) : u = v ∧ s = t := by
  induction u generalizing v with
  | nil =>
    cases v with
    | nil => exact ⟨rfl, (List.cons.inj h).2⟩
    | cons c v => exact absurd ((List.cons.inj h).1 ▸ List.mem_cons_self) hv
  | cons c u ih =>
    cases v with
    | nil => exact absurd ((List.cons.inj h).1 ▸ List.mem_cons_self) hu
    | cons c' v =>
      obtain ⟨rfl, htail⟩ := List.cons.inj h
      obtain ⟨rfl, rfl⟩ :=
        ih (mt (List.mem_cons_of_mem _) hu) (mt (List.mem_cons_of_mem _) hv) htail
      exact ⟨rfl, rfl⟩

/-- **A text begins with one date at most.** -/
theorem sameDate_of_prefix (hp : dateName p <+: s) (hq : dateName q <+: s) : SameDate p q := by
  obtain ⟨t, rfl⟩ := hp
  obtain ⟨u, hu⟩ := hq
  have hunderscore : str "_" = [95] := rfl
  simp only [dateName, hunderscore, List.append_assoc, List.cons_append, List.nil_append] at hu
  obtain ⟨hyear, hu⟩ := cut_unique (underscore_notMem_padded _ _) (underscore_notMem_padded _ _) hu
  obtain ⟨hmon, hu⟩ := cut_unique (underscore_notMem_padded _ _) (underscore_notMem_padded _ _) hu
  have hlength : ∀ now : Now, (padded 2 now.tmMday).length = 2 := fun now =>
    length_padded_two (by have := now.tmMday_le; omega)
  obtain ⟨hmday, -⟩ := List.append_inj hu ((hlength q).trans (hlength p).symm)
  have hvalue := fun {width m n : ℕ} (h : padded width m = padded width n) =>
    (value_padded width m).symm.trans ((congrArg Decimal.value h).trans (value_padded width n))
  have hy := hvalue hyear
  have hm := hvalue hmon
  exact ⟨by omega, by omega, (hvalue hmday).symm⟩

/-- **A name that was made for one date carries exactly that one**, if there is room for it. -/
theorem carries_iff (hpath : path = printed (LOG_PATH_LEN - 1) (dirname ++ str "/" ++ dateName p
    ++ rest)) : Carries dirname path q ↔ SameDate p q ∧ HasRoom dirname q := by
  have hlen : (dirname ++ str "/" ++ dateName q).length
      = dirname.length + 1 + (dateName q).length := by
    simp only [List.length_append]
    rfl
  rw [Carries, hpath, printed, List.prefix_take_iff, hlen]
  refine and_congr ⟨fun h => ?_, fun h => ?_⟩ Iff.rfl
  · rw [List.append_assoc (dirname ++ str "/"), List.prefix_append_right_inj] at h
    exact sameDate_of_prefix (List.prefix_append _ _) h
  · rw [dateName_congr h]
    exact List.prefix_append _ _

/-! ## The file and its lines -/

/-- What a `write` has passed to `fputs`, and when it was called. -/
structure Entry where
  now : Now
  text : Bytes
  deriving DecidableEq

/-- What a log in synchronous mode keeps, and what it has written. -/
structure Writer extends Members where
  dirname : Bytes
  filename : Bytes
  lineCount : ℕ
  today : ℕ
  /-- The names that `_fp` was opened under, the last first, each with the lines that were written
  there. -/
  files : List (Bytes × List Entry)

/-- `_line_count != 0 and (_line_count % _MAX_LINES == 0)`. -/
def Full (lineCount : ℕ) : Prop := lineCount ≠ 0 ∧ lineCount % MAX_LINES = 0

instance (lineCount : ℕ) : Decidable (Full lineCount) := inferInstanceAs (Decidable (_ ∧ _))

namespace Writer

/-- `init`, on a log from its constructor. -/
def init (dirname filename : Bytes) (now : Now) : Writer where
  buf := .new 1024
  hasFp := true
  hasQue := false
  hasThread := false
  dirname := dirname
  filename := filename
  lineCount := 0
  today := now.tmMday
  files := [(printed (LOG_PATH_LEN - 1)
    (dirname ++ str "/" ++ dateName now ++ str "_" ++ filename), [])]

variable (abi : Abi Members) (w : Writer)

/-- The first part of `write`: the name of the file to open, if it is time for another. -/
def test (now : Now) : Option Bytes × Writer :=
  let tail := printed 16 (dateName now)
  if now.tmMday ≠ w.today ∨ Full w.lineCount then
    if now.tmMday ≠ w.today then
      (some (printed (LOG_PATH_LEN - 1) (w.dirname ++ str "/" ++ tail ++ w.filename)),
        { w with today := now.tmMday, lineCount := 0 })
    else
      (some (printed (LOG_PATH_LEN - 1) (w.dirname ++ str "/" ++ tail ++ w.filename ++ str "-" ++
        Decimal.print (w.lineCount / MAX_LINES))), w)
  else (none, w)

/-- `fclose(_fp)`, and `_fp = fopen(path, "a")`. -/
def reopen (path : Bytes) : Exec Writer := do
  deref w.hasFp
  return { w with hasFp := true, files := (path, []) :: w.files }

/-- `++_line_count`, and the line is made, passed to `fputs`, and cleared. -/
def put (r : Record) : Exec Writer :=
  if w.lineCount + 1 < 2 ^ 31 then do
    let buf ← writeLine r.now r.level r.msg w.buf
    let text ← buf.readString
    deref w.hasFp
    match w.files with
    | [] => .error .nullDeref
    | (path, lines) :: files =>
      return { w with
        toMembers := buf.retrieveAll abi { w.toMembers with buf := buf }
        lineCount := w.lineCount + 1
        files := (path, lines ++ [⟨r.now, text⟩]) :: files }
  else .error .overflow

/-- `write`, with no other thread. -/
def write (r : Record) : Exec Writer :=
  match w.test r.now with
  | (none, w) => w.put abi r
  | (some path, w) => do
    let w ← w.reopen path
    w.put abi r

/-! ## What one call does -/

variable {abi} {w} {w' : Writer} {r : Record} {rs : List Record} {now prev : Now}

/-- **The test has three outcomes**: the file stays, it is full, or the day of the month is
another. -/
theorem test_cases (w : Writer) (now : Now) :
    (now.tmMday = w.today ∧ ¬ Full w.lineCount ∧ w.test now = (none, w)) ∨
    ∃ rest, (now.tmMday = w.today ∧ Full w.lineCount ∧ w.test now = (some
        (printed (LOG_PATH_LEN - 1) (w.dirname ++ str "/" ++ printed 16 (dateName now) ++ rest)),
        w)) ∨
      now.tmMday ≠ w.today ∧ w.test now = (some
        (printed (LOG_PATH_LEN - 1) (w.dirname ++ str "/" ++ printed 16 (dateName now) ++ rest)),
        { w with today := now.tmMday, lineCount := 0 }) := by
  rw [test]
  by_cases hday : now.tmMday = w.today
  · by_cases hfull : Full w.lineCount
    · refine .inr ⟨w.filename ++ str "-" ++ Decimal.print (w.lineCount / MAX_LINES),
        .inl ⟨hday, hfull, ?_⟩⟩
      rw [if_pos (.inr hfull), if_neg (not_not.mpr hday)]
      simp only [List.append_assoc]
    · refine .inl ⟨hday, hfull, ?_⟩
      rw [if_neg (not_or.mpr ⟨not_not.mpr hday, hfull⟩)]
  · refine .inr ⟨w.filename, .inr ⟨hday, ?_⟩⟩
    rw [if_pos (.inl hday), if_pos hday]

/-- The line of a call can be made in a buffer, and read from it. -/
def Takes (b : Buffer) (r : Record) : Prop :=
  ∃ b', writeLine r.now r.level r.msg b = .ok b' ∧ 0 ∈ b'.buf.drop b'.readPos

/-- **A call puts its line into the open file.** -/
theorem put_eq_ok (h : w.put abi r = .ok w') : Takes w.buf r ∧ w.lineCount + 1 < 2 ^ 31 ∧
    w.hasFp = true ∧ ∃ path lines files buf text, w.files = (path, lines) :: files ∧
      writeLine r.now r.level r.msg w.buf = .ok buf ∧ w' = { w with
        toMembers := buf.retrieveAll abi { w.toMembers with buf := buf }
        lineCount := w.lineCount + 1
        files := (path, lines ++ [⟨r.now, text⟩]) :: files } := by
  rw [put] at h
  split_ifs at h with hcount
  obtain ⟨buf, hline, h⟩ := bind_eq_ok.mp h
  obtain ⟨text, hread, h⟩ := bind_eq_ok.mp h
  obtain ⟨u, hfp, h⟩ := bind_eq_ok.mp h
  refine ⟨⟨buf, hline, Buffer.of_readString hread⟩, hcount, deref_eq_ok hfp, ?_⟩
  cases hfiles : w.files with
  | nil =>
    rw [hfiles] at h
    cases h
  | cons f files =>
    obtain ⟨path, lines⟩ := f
    rw [hfiles] at h
    exact ⟨path, lines, files, buf, text, rfl, hline, (Except.ok.inj h).symm⟩

variable (abi) in
theorem put_eq {path text : Bytes} {lines : List Entry} {files : List (Bytes × List Entry)}
    {buf : Buffer} (hline : writeLine r.now r.level r.msg w.buf = .ok buf)
    (hread : buf.readString = .ok text) (hcount : w.lineCount + 1 < 2 ^ 31) (hfp : w.hasFp = true)
    (hfiles : w.files = (path, lines) :: files) : w.put abi r = .ok { w with
      toMembers := buf.retrieveAll abi { w.toMembers with buf := buf }
      lineCount := w.lineCount + 1
      files := (path, lines ++ [⟨r.now, text⟩]) :: files } := by
  rw [put, if_pos hcount, hline, ok_bind, hread, ok_bind, hfp, hfiles]
  rfl

theorem put_ok {path : Bytes} {lines : List Entry} {files : List (Bytes × List Entry)}
    (htakes : Takes w.buf r) (hcount : w.lineCount + 1 < 2 ^ 31) (hfp : w.hasFp = true)
    (hfiles : w.files = (path, lines) :: files) : ∃ w', w.put abi r = .ok w' := by
  obtain ⟨buf, hline, hnul⟩ := htakes
  exact ⟨_, put_eq abi hline (Buffer.readString_eq (writeLine_ne_nil hline) hnul) hcount hfp hfiles⟩

theorem reopen_eq_ok {path : Bytes} (h : w.reopen path = .ok w') :
    w.hasFp = true ∧ w' = { w with files := (path, []) :: w.files } := by
  obtain ⟨u, hfp, h⟩ := bind_eq_ok.mp h
  refine ⟨deref_eq_ok hfp, (Except.ok.inj h).symm.trans ?_⟩
  rw [← deref_eq_ok hfp]

theorem reopen_ok {path : Bytes} (hfp : w.hasFp = true) :
    w.reopen path = .ok { w with files := (path, []) :: w.files } := by
  have hfp' : ({ w with hasFp := true } : Writer) = w := by rw [← hfp]
  rw [reopen, hfp, ← hfp']
  rfl

/-- A line that is put into a file as soon as it is opened. -/
theorem reopen_put_eq_ok {path : Bytes} (h : (w.reopen path >>= fun w => w.put abi r) = .ok w') :
    ∃ members text, w' = { w with
      toMembers := members
      lineCount := w.lineCount + 1
      files := (path, [⟨r.now, text⟩]) :: w.files } := by
  obtain ⟨w₁, hopen, hput⟩ := bind_eq_ok.mp h
  obtain ⟨-, rfl⟩ := reopen_eq_ok hopen
  obtain ⟨-, -, -, path', lines, files, buf, text, hfiles, -, rfl⟩ := put_eq_ok hput
  obtain ⟨hopen, rfl⟩ := List.cons.inj hfiles
  obtain ⟨rfl, rfl⟩ := Prod.mk.inj hopen
  exact ⟨_, text, rfl⟩

/-- A call that finds the day and room in the file. -/
theorem write_stays (h : w.test r.now = (none, w)) : w.write abi r = w.put abi r := by
  rw [write, h]

/-- The date of a year with at most nine digits fits into `tail`. -/
theorem printed_dateName (hyear : now.tmYear + 1900 < 10 ^ 9) :
    printed 16 (dateName now) = dateName now := by
  have hy : (padded 4 (now.tmYear + 1900)).length ≤ 9 :=
    length_padded_le (by decide) (by decide) hyear
  have hm : (padded 2 (now.tmMon + 1)).length = 2 :=
    length_padded_two (by have := now.tmMon_lt; omega)
  have hd : (padded 2 now.tmMday).length = 2 :=
    length_padded_two (by have := now.tmMday_le; omega)
  have hone : (str "_").length = 1 := rfl
  refine List.take_of_length_le ?_
  simp only [dateName, List.length_append, hm, hd, hone]
  omega

/-- **A line goes to the file that is open**, or to one that is opened for its date. -/
theorem write_cases (hyear : r.now.tmYear + 1900 < 10 ^ 9) (h : w.write abi r = .ok w') :
    (r.now.tmMday = w.today ∧ ¬ Full w.lineCount ∧ ∃ members text path lines files,
      w.files = (path, lines) :: files ∧ w' = { w with
        toMembers := members
        lineCount := w.lineCount + 1
        files := (path, lines ++ [⟨r.now, text⟩]) :: files }) ∨
    (r.now.tmMday = w.today → Full w.lineCount) ∧ ∃ members text count rest, w' = { w with
      toMembers := members
      today := r.now.tmMday
      lineCount := count
      files := (printed (LOG_PATH_LEN - 1)
        (w.dirname ++ str "/" ++ dateName r.now ++ rest), [⟨r.now, text⟩]) :: w.files } := by
  rw [write] at h
  obtain ⟨hday, hfull, htest⟩ | ⟨rest, ⟨hday, hfull, htest⟩ | ⟨hday, htest⟩⟩ := test_cases w r.now
  · rw [htest] at h
    obtain ⟨-, -, -, path, lines, files, buf, text, hfiles, -, rfl⟩ := put_eq_ok h
    exact .inl ⟨hday, hfull, _, text, path, lines, files, hfiles, rfl⟩
  · rw [htest, printed_dateName hyear] at h
    obtain ⟨members, text, rfl⟩ := reopen_put_eq_ok h
    refine .inr ⟨fun _ => hfull, members, text, w.lineCount + 1, rest, ?_⟩
    rw [hday]
  · rw [htest, printed_dateName hyear] at h
    obtain ⟨members, text, rfl⟩ := reopen_put_eq_ok h
    exact .inr ⟨fun hsame => absurd hsame hday, members, text, 0 + 1, rest, rfl⟩

/-! ## When a call returns -/

/-- There is a file, the counter has room, and so has `_buf`. -/
def Ready (w : Writer) (r : Record) : Prop :=
  w.hasFp = true ∧ (r.now.tmMday = w.today → w.lineCount + 1 < 2 ^ 31) ∧ Takes w.buf r

/-- A `write` puts its line into a log with the members that it has found. -/
theorem write_put (h : w.write abi r = .ok w') : ∃ w₁ : Writer, w₁.toMembers = w.toMembers ∧
    (r.now.tmMday = w.today → w₁.lineCount = w.lineCount) ∧ w₁.put abi r = .ok w' := by
  rw [write] at h
  obtain ⟨-, -, htest⟩ | ⟨rest, ⟨-, -, htest⟩ | ⟨hday, htest⟩⟩ := test_cases w r.now
  · rw [htest] at h
    exact ⟨w, rfl, fun _ => rfl, h⟩
  · rw [htest] at h
    obtain ⟨w₁, hopen, hput⟩ := bind_eq_ok.mp h
    obtain ⟨-, rfl⟩ := reopen_eq_ok hopen
    refine ⟨_, ?_, ?_, hput⟩
    · rfl
    · exact fun _ => rfl
  · rw [htest] at h
    obtain ⟨w₁, hopen, hput⟩ := bind_eq_ok.mp h
    obtain ⟨-, rfl⟩ := reopen_eq_ok hopen
    refine ⟨_, ?_, fun hsame => absurd hsame hday, hput⟩
    rfl

theorem ready_of_write (h : w.write abi r = .ok w') : Ready w r := by
  obtain ⟨w₁, hmembers, hcount, hput⟩ := write_put h
  obtain ⟨htakes, hroom, hfp, -⟩ := put_eq_ok hput
  rw [hmembers] at htakes hfp
  exact ⟨hfp, fun hday => hcount hday ▸ hroom, htakes⟩

variable (abi) in
theorem write_ok {path : Bytes} {lines : List Entry} {files : List (Bytes × List Entry)}
    (hfiles : w.files = (path, lines) :: files) (hready : Ready w r) :
    ∃ w', w.write abi r = .ok w' := by
  obtain ⟨hfp, hcount, htakes⟩ := hready
  obtain ⟨hday, -, htest⟩ | ⟨rest, ⟨hday, -, htest⟩ | ⟨hday, htest⟩⟩ := test_cases w r.now
  · rw [write, htest]
    exact put_ok htakes (hcount hday) hfp hfiles
  · rw [write, htest]
    dsimp only
    rw [reopen_ok hfp, ok_bind]
    exact put_ok htakes (hcount hday) hfp rfl
  · rw [write, htest]
    dsimp only
    rw [reopen_ok (w := { w with today := r.now.tmMday, lineCount := 0 }) hfp, ok_bind]
    exact put_ok htakes (show 0 + 1 < 2 ^ 31 by decide) hfp rfl

/-- **The first line leaves no vector**, where one of 1024 bytes does not outlive `retrieveAll`. -/
theorem put_voids (hv : Voids abi Members.buf) (hnew : w.buf = .new 1024)
    (h : w.put abi r = .ok w') : w'.buf.buf = [] := by
  obtain ⟨-, -, -, path, lines, files, buf, text, -, hline, rfl⟩ := put_eq_ok h
  have hlen : w.buf.buf.length = 1024 := by
    rw [hnew]
    exact List.length_replicate
  have hok : w.buf.Ok := hnew ▸ Buffer.new_ok (by decide)
  exact hv _ _ (hlen.symm.trans_le (writeLine_length hok (by rw [hlen]; decide) hline))

theorem write_voids (hv : Voids abi Members.buf) (hnew : w.buf = .new 1024)
    (h : w.write abi r = .ok w') : w'.buf.buf = [] := by
  obtain ⟨w₁, hmembers, -, hput⟩ := write_put h
  rw [← hmembers] at hnew
  exact put_voids hv hnew hput

theorem not_ready_nil (hb : w.buf.buf = []) : ¬ Ready w r := fun ⟨_, _, _, hline, _⟩ =>
  ne_nil_of_writeLine hline hb

/-! ## The dates of the lines -/

/-- Every line was written to a file whose name carries its date. -/
def AllCarry (w : Writer) : Prop := ∀ f ∈ w.files, ∀ e ∈ f.2, Carries w.dirname f.1 e.now

/-- The open file was named for the date of the last call, at `prev`. -/
structure Aligned (w : Writer) (prev : Now) : Prop where
  today_eq : w.today = prev.tmMday
  named : ∃ path lines files rest, w.files = (path, lines) :: files ∧
    path = printed (LOG_PATH_LEN - 1) (w.dirname ++ str "/" ++ dateName prev ++ rest)

/-- There is room for the date of the call, in `tail` and in the name, and if it falls on the day of
the month of the call before it, and finds the file not full, it falls on the same date. -/
def Timely (w : Writer) (prev now : Now) : Prop :=
  now.tmYear + 1900 < 10 ^ 9 ∧ HasRoom w.dirname now ∧
    (now.tmMday = prev.tmMday → ¬ Full w.lineCount → SameDate prev now)

variable (abi) in
/-- Each call of `write` is timely, and finds the log ready for it, from a log `w` whose last call
was at `prev`. -/
def Dated : Now → Writer → List Record → Prop
  | _, _, [] => True
  | prev, w, r :: rs => Timely w prev r.now ∧ Ready w r ∧
    ∀ w', w.write abi r = .ok w' → Dated r.now w' rs

variable {path text : Bytes} {lines : List Entry} {files : List (Bytes × List Entry)}
  {members : Members}

theorem init_aligned (dirname filename : Bytes) (now : Now) :
    Aligned (init dirname filename now) now where
  today_eq := rfl
  named := ⟨_, [], [], str "_" ++ filename, rfl, by simp only [List.append_assoc]; rfl⟩

/-- One line more in the open file. -/
theorem allCarry_line (hfiles : w.files = (path, lines) :: files) (count : ℕ) :
    AllCarry { w with
      toMembers := members
      lineCount := count
      files := (path, lines ++ [⟨now, text⟩]) :: files } ↔
      AllCarry w ∧ Carries w.dirname path now := by
  rw [AllCarry, AllCarry, hfiles, List.forall_mem_cons, List.forall_mem_cons,
    List.forall_mem_append, List.forall_mem_singleton]
  exact and_right_comm

/-- The first line in another file. -/
theorem allCarry_file (path : Bytes) (day count : ℕ) :
    AllCarry { w with
      toMembers := members
      today := day
      lineCount := count
      files := (path, [⟨now, text⟩]) :: w.files } ↔
      AllCarry w ∧ Carries w.dirname path now := by
  rw [AllCarry, AllCarry, List.forall_mem_cons, List.forall_mem_singleton]
  exact and_comm

/-- **The line of a call goes to the right file if and only if the call is timely**, and then the
file is right for its date. -/
theorem write_timely (ha : Aligned w prev) (hyear : r.now.tmYear + 1900 < 10 ^ 9)
    (h : w.write abi r = .ok w') :
    (AllCarry w' ↔ AllCarry w ∧ Timely w prev r.now) ∧
      (Timely w prev r.now → Aligned w' r.now) := by
  obtain ⟨htoday, path, lines, files, rest, hfiles, hpath⟩ := ha
  obtain ⟨hday, hfull, members, text, path', lines', files', hfiles', rfl⟩ |
    ⟨hfull, members, text, count, rest', rfl⟩ := write_cases hyear h
  · obtain ⟨hopen, rfl⟩ := List.cons.inj (hfiles.symm.trans hfiles')
    obtain ⟨rfl, rfl⟩ := Prod.mk.inj hopen
    have htimely : Timely w prev r.now ↔ SameDate prev r.now ∧ HasRoom w.dirname r.now := by
      rw [Timely, and_iff_right hyear, and_comm]
      exact and_congr_left fun _ => ⟨fun h => h (hday.trans htoday) hfull, fun h _ _ => h⟩
    rw [allCarry_line hfiles', htimely, carries_iff hpath]
    refine ⟨Iff.rfl, fun ⟨hsame, _⟩ => ⟨hday.symm, path, _, files, rest, rfl, ?_⟩⟩
    rw [← dateName_congr hsame]
    exact hpath
  · have htimely : Timely w prev r.now ↔ HasRoom w.dirname r.now := by
      rw [Timely, and_iff_right hyear]
      exact and_iff_left fun hsame hnot => absurd (hfull (hsame.trans htoday.symm)) hnot
    rw [allCarry_file, htimely, carries_iff rfl]
    exact ⟨and_congr_right fun _ => and_iff_right ⟨rfl, rfl, rfl⟩,
      fun _ => ⟨rfl, _, [⟨r.now, text⟩], w.files, rest', rfl, rfl⟩⟩

/-- A line stays where it was written. -/
theorem allCarry_of_write (hyear : r.now.tmYear + 1900 < 10 ^ 9) (h : w.write abi r = .ok w')
    (hall : AllCarry w') : AllCarry w := by
  obtain ⟨-, -, members, text, path, lines, files, hfiles, rfl⟩ |
    ⟨-, members, text, count, rest, rfl⟩ := write_cases hyear h
  · exact ((allCarry_line hfiles _).mp hall).1
  · exact ((allCarry_file _ _ _).mp hall).1

theorem allCarry_of_run (hyear : ∀ r ∈ rs, r.now.tmYear + 1900 < 10 ^ 9)
    (h : rs.foldlM (write abi) w = .ok w') (hall : AllCarry w') : AllCarry w := by
  induction rs generalizing w with
  | nil =>
    cases h
    exact hall
  | cons r rs ih =>
    rw [List.foldlM_cons] at h
    obtain ⟨w₁, hwrite, h⟩ := bind_eq_ok.mp h
    obtain ⟨hr, hrs⟩ := List.forall_mem_cons.mp hyear
    exact allCarry_of_write hr hwrite (ih hrs h)

/-- **A run from a log whose file is right for its last call** writes every line to the right file,
if every call is timely and finds the log ready. -/
theorem allCarry_of_dated (ha : Aligned w prev) (hall : AllCarry w) (hdated : Dated abi prev w rs) :
    ∃ w', rs.foldlM (write abi) w = .ok w' ∧ AllCarry w' := by
  induction rs generalizing w prev with
  | nil => exact ⟨w, rfl, hall⟩
  | cons r rs ih =>
    obtain ⟨htimely, hready, hdated⟩ := hdated
    obtain ⟨path, lines, files, rest, hfiles, -⟩ := ha.named
    obtain ⟨w₁, hwrite⟩ := write_ok abi hfiles hready
    obtain ⟨hline, hnext⟩ := write_timely ha htimely.1 hwrite
    rw [List.foldlM_cons, hwrite, ok_bind]
    exact ih (hnext htimely) (hline.mpr ⟨hall, htimely⟩) (hdated w₁ hwrite)

/-- …and only then. -/
theorem dated_of_allCarry (ha : Aligned w prev) (hyear : ∀ r ∈ rs, r.now.tmYear + 1900 < 10 ^ 9)
    (h : rs.foldlM (write abi) w = .ok w') (hall : AllCarry w') : Dated abi prev w rs := by
  induction rs generalizing w prev with
  | nil => trivial
  | cons r rs ih =>
    rw [List.foldlM_cons] at h
    obtain ⟨w₁, hwrite, h⟩ := bind_eq_ok.mp h
    obtain ⟨hr, hrs⟩ := List.forall_mem_cons.mp hyear
    obtain ⟨hline, hnext⟩ := write_timely ha hr hwrite
    have htimely := (hline.mp (allCarry_of_run hrs h hall)).2
    refine ⟨htimely, ready_of_write hwrite, fun w₂ hwrite₂ => ?_⟩
    obtain rfl := Except.ok.inj (hwrite.symm.trans hwrite₂)
    exact ih (hnext htimely) hrs h

/-- **One call, and no other**: the second finds no vector. -/
theorem length_le_one (hv : Voids abi Members.buf) (hnew : w.buf = .new 1024)
    (hfiles : w.files = (path, lines) :: files) (h : Dated abi prev w rs) : rs.length ≤ 1 := by
  match rs, h with
  | [], _ => exact Nat.zero_le _
  | [_], _ => exact le_rfl
  | r₁ :: r₂ :: _, ⟨_, hready, hdated⟩ =>
    obtain ⟨w₁, hwrite⟩ := write_ok abi hfiles hready
    exact absurd (hdated w₁ hwrite).2.1 (not_ready_nil (write_voids hv hnew hwrite))

/-- **A run of `init` and `write`s puts each line into a file whose name carries its date if every
call is timely and finds the log ready**, and only then, as long as years have at most nine digits.
Where a vector of 1024 bytes does not outlive `retrieveAll`, the second call does not find the log
ready. -/
theorem lines_dated (abi : Abi Members) (dirname filename : Bytes) (start : Now)
    (rs : List Record) :
    (Dated abi start (init dirname filename start) rs →
      ∃ w, rs.foldlM (write abi) (init dirname filename start) = .ok w ∧ AllCarry w) ∧
    ((∀ r ∈ rs, r.now.tmYear + 1900 < 10 ^ 9) →
      ∀ w, rs.foldlM (write abi) (init dirname filename start) = .ok w → AllCarry w →
        Dated abi start (init dirname filename start) rs) ∧
    (Voids abi Members.buf → Dated abi start (init dirname filename start) rs →
      rs.length ≤ 1) := by
  have ha := init_aligned dirname filename start
  have hall : AllCarry (init dirname filename start) :=
    List.forall_mem_singleton.mpr fun r hr => absurd hr List.not_mem_nil
  exact ⟨fun hdated => allCarry_of_dated ha hall hdated,
    fun hyear w h hw => dated_of_allCarry ha hyear h hw,
    fun hv hdated => length_le_one hv rfl rfl hdated⟩

/-- Noon, a month later. -/
def september : Now := { noon with tmMon := 8, tmMon_lt := by decide }

/-- A line that is read in a new buffer. -/
theorem takes_of_text {text : Bytes}
    (h : (writeLine now 1 (str "Server init") (.new 1024) >>= Buffer.readString) = .ok text) :
    Takes (.new 1024) ⟨now, 1, str "Server init"⟩ := by
  obtain ⟨buf, hline, hread⟩ := bind_eq_ok.mp h
  exact ⟨buf, hline, Buffer.of_readString hread⟩

/-- A line on the day of `init`. -/
theorem lines_dated_noon : ∃ w, [⟨noon, 1, str "Server init"⟩].foldlM (write (wiped .null))
    (init (str "./log") (str ".log") noon) = .ok w ∧ AllCarry w := by
  have htext : (writeLine noon 1 (str "Server init") (.new 1024) >>= Buffer.readString) =
      .ok (str "2023-08-05 12:00:00.000000 [INFO] : Server init\n") := by
    decide +kernel
  refine (lines_dated (wiped .null) _ _ noon _).1
    ⟨⟨?_, ?_, fun _ _ => ?_⟩, ⟨rfl, fun _ => ?_, takes_of_text htext⟩, fun _ _ => trivial⟩
  · decide
  · show _ ≤ 254
    decide +kernel
  · decide
  · exact Nat.one_lt_two_pow (by decide)

/-- **The log is idle for a month**: the line of September goes to the file of August. -/
theorem not_lines_dated_september : noon.tmYear = september.tmYear ∧ noon.tmMon < september.tmMon ∧
    ∃ w, [⟨september, 1, str "Server init"⟩].foldlM (write (wiped .null))
        (init (str "./log") (str ".log") noon) = .ok w ∧
      w.files = [(str "./log/2023_08_05_.log",
        [⟨september, str "2023-09-05 12:00:00.000000 [INFO] : Server init\n"⟩])] ∧
      ¬ AllCarry w := by
  have htext : (writeLine september 1 (str "Server init") (.new 1024) >>= Buffer.readString) =
      .ok (str "2023-09-05 12:00:00.000000 [INFO] : Server init\n") := by
    decide +kernel
  obtain ⟨buf, hline, hread⟩ := bind_eq_ok.mp htext
  have htest : (init (str "./log") (str ".log") noon).test september =
      (none, init (str "./log") (str ".log") noon) := by
    rw [test, if_neg (by decide)]
  have hpath : printed (LOG_PATH_LEN - 1) (str "./log" ++ str "/" ++ dateName noon ++ str "_" ++
      str ".log") = str "./log/2023_08_05_.log" := by
    decide +kernel
  have hwrite := put_eq (wiped .null) (w := init (str "./log") (str ".log") noon)
    (r := ⟨september, 1, str "Server init"⟩) hline hread (Nat.one_lt_two_pow (by decide)) rfl rfl
  rw [← write_stays htest] at hwrite
  refine ⟨rfl, by decide, _, bind_eq_ok.mpr ⟨_, hwrite, rfl⟩,
    congrArg (fun path => [(path, _)]) hpath, fun hall => ?_⟩
  have hcarries := List.forall_mem_singleton.mp (List.forall_mem_singleton.mp hall)
  obtain ⟨path, lines, files, rest, hfiles, hpath⟩ :=
    (init_aligned (str "./log") (str ".log") noon).named
  obtain ⟨hopen, -⟩ := List.cons.inj hfiles
  obtain ⟨rfl, -⟩ := Prod.mk.inj hopen
  exact absurd ((carries_iff hpath).mp hcarries).1 (by decide)

end Writer

end Log

end WebServer
