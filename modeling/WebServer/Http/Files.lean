import WebServer.Http.Answer
import WebServer.Http.Framing

/-!
# Http/Files — which files are sent whole

The size of a file is an `off_t` where it is announced and an `int` where it is queued, and an empty
file cannot be mapped at all.  `sends_file_iff` says for which sizes the two agree.
-/

namespace WebServer

/-- `S_ISREG(st_mode)`. -/
def Stat.isReg (st : Stat) : Bool := st.mode &&& 0o170000 == 0o100000

theorem Stat.isDir_of_isReg {st : Stat} (h : st.isReg = true) : st.isDir = false := by
  rw [Stat.isReg, beq_iff_eq] at h
  rw [Stat.isDir, h]
  rfl

namespace HttpResponse

variable {r : HttpResponse} {sys : Sys} {st : Stat}

/-- A readable file is answered with itself. -/
theorem settled_of_readable (hst : sys.stat r.fileName = some st) (hdir : st.isDir = false)
    (hread : st.othersRead = true) : r.settled sys = { r with code := 200, fileStat := st } := by
  have hstatus : status (sys.stat r.fileName) = 200 := by
    rw [hst, status, hdir, hread]
    rfl
  have hpage : r.page sys = none := by
    rw [page, hstatus]
    rfl
  rw [settled_eq, hpage, hstatus, hst]
  rfl

end HttpResponse

namespace HttpConn

open HttpResponse

variable {srcDir : Bytes} {sys : Sys} {db : Mysql} {c c' : HttpConn} {parsed : Bool}
  {request : HttpRequest} {readBuf : Buffer} {m : Frame} {files : ℕ → Bytes} {name file : Bytes}

/-- A regular file that others may read: it can be opened, and mapped if it is not empty. -/
structure Holds (files : ℕ → Bytes) (sys : Sys) (name file : Bytes) : Prop where
  stat : ∃ st, sys.stat name = some st ∧ st.isReg = true ∧ st.othersRead = true ∧
    st.size = file.length
  mmap : ∃ fd, sys.openFile name = some fd ∧ (∀ len, (sys.mmap len fd).isSome ↔ 0 < len) ∧
    ∀ addr, sys.mmap file.length fd = some addr → files addr = file

/-- The bytes that a call of `process` queues behind the write buffer: those of `_iov[1]`, if the
call counts it. -/
def queued (files : ℕ → Bytes) (c c' : HttpConn) : Bytes :=
  if c'.iovCount = c.iovCount + 2 then c'.iov1.read (c'.mem files) else []

/-- `process` answers 200, announces the size of the file, and queues its bytes. -/
def Sends (files : ℕ → Bytes) (srcDir : Bytes) (sys : Sys) (db : Mysql) (c : HttpConn)
    (file : Bytes) : Prop :=
  ∃ c', ∃ m : Frame, process srcDir sys db c = .ok (true, c') ∧
    c'.writeBuf.readable = c.writeBuf.readable ++ m.print ∧ m.WellFormed ∧ m.code = 200 ∧
    m.Measures file.length ∧ m.body ++ queued files c c' = file

/-- There is one answer. -/
theorem Sends.body (h : Sends files srcDir sys db c file)
    (hproc : process srcDir sys db c = .ok (true, c'))
    (hread : c'.writeBuf.readable = c.writeBuf.readable ++ m.print) (hwf : m.WellFormed) :
    m.body ++ queued files c c' = file := by
  obtain ⟨c'', m', hproc', hread', hwf', -, -, hbody⟩ := h
  obtain ⟨-, rfl⟩ := Prod.mk.inj (Except.ok.inj (hproc'.symm.trans hproc))
  rwa [hwf.print_inj hwf' (List.append_cancel_left (hread.symm.trans hread'))]

/-- Behind the write buffer there is as much of a mapped file as an `int` says. -/
theorem queued_mapped {addr p : ℕ} (hfile : c.response.file = some addr) :
    queued files c (c.setIov p) = (files addr).take c.response.getFileLen.toNat := by
  by_cases hlen : 0 < c.response.getFileLen
  · rw [setIov_file hfile hlen, queued]
    simp only [Span.read, mem, List.drop_zero, if_true]
  · rw [setIov_skip (.inr (not_lt.mp hlen)), queued, if_neg (by simp),
      Int.toNat_eq_zero.mpr (not_lt.mp hlen), List.take_zero]

/-- An `int` holds a size if and only if it is below `2 ^ 31`. -/
theorem le_int32_iff (n : ℕ) : n ≤ (Word.int32 n).toNat ↔ n < 2 ^ 31 := by
  have hlt := Word.int32_lt n
  refine ⟨fun h => by omega, fun h => ?_⟩
  rw [Word.int32_of_lt h, Int.toNat_natCast]

/-- **What `process` does with a readable file**: an empty one is answered with a page, any other
with as much of it as an `int` says. -/
theorem process_holds (hfile : Holds files sys (cstr (srcDir ++ request.path)) file)
    (h : Answerable srcDir sys db c parsed request readBuf) :
    ∃ c', ∃ m : Frame, process srcDir sys db c = .ok (true, c') ∧
      c'.writeBuf.readable = c.writeBuf.readable ++ m.print ∧ m.WellFormed ∧ m.code = 200 ∧
      ((file = [] ∧ m.body ≠ []) ∨
        (0 < file.length ∧ m.Measures file.length ∧ m.body = [] ∧
          queued files c c' = file.take (Word.int32 file.length).toNat)) := by
  obtain ⟨⟨st, hst, hreg, hread, hlen⟩, fd, hopen, hmmap, hbytes⟩ := hfile
  obtain ⟨writeBuf, hext, hproc⟩ := process_answer h
  generalize ha : answer srcDir c parsed request = a at *
  have hname : a.fileName = cstr (srcDir ++ request.path) := by
    rw [← ha, fileName, answer_eq]
  have hsettled := settled_of_readable (hname ▸ hst) (Stat.isDir_of_isReg hreg) hread
  have hmap : (a.settled sys).mapping sys = sys.mmap file.length fd := by
    rw [hsettled]
    show (sys.openFile a.fileName).bind (sys.mmap st.size) = _
    rw [hname, hopen, hlen, Option.bind_some]
  refine ⟨_, (a.settled sys).frame sys, hproc, ?_, wellFormed_settled a sys,
    by rw [hsettled, frame], ?_⟩
  · rw [setIov_members, ← head_eq]
    exact hext.readable
  cases hcase : sys.mmap file.length fd with
  | none =>
    refine .inl ⟨?_, ?_⟩
    · by_contra hne
      have hsome := (hmmap file.length).mpr (List.length_pos_iff.mpr hne)
      rw [hcase] at hsome
      cases hsome
    · rw [frame, hmap, hcase]
      simp [errorBody, str]
  | some addr =>
    obtain ⟨hmeasures, hbody⟩ := measures_file (hmap.trans hcase)
    refine .inr ⟨(hmmap file.length).mp (by rw [hcase]; rfl), ?_, hbody, ?_⟩
    · rwa [hsettled, hlen, ← hsettled] at hmeasures
    · refine (queued_mapped (by rw [hmap, hcase])).trans ?_
      rw [hbytes addr hcase, HttpResponse.getFileLen, hsettled, hlen]

/-- **A readable file is announced with its size and queued as it is if and only if it is not empty
and its size is below `2 ^ 31`.** -/
theorem sends_file_iff (hfile : Holds files sys (cstr (srcDir ++ request.path)) file)
    (h : Answerable srcDir sys db c parsed request readBuf) :
    Sends files srcDir sys db c file ↔ 0 < file.length ∧ file.length < 2 ^ 31 := by
  obtain ⟨c', m, hproc, hread, hwf, hcode, ⟨rfl, hbody⟩ | ⟨hpositive, hmeasures, hbody, hqueued⟩⟩ :=
    process_holds hfile h
  · refine iff_of_false (fun hsends => hbody ?_) fun hsize => absurd hsize.1 (by simp)
    exact (List.append_eq_nil_iff.mp (hsends.body hproc hread hwf)).1
  · rw [and_iff_right hpositive, ← le_int32_iff, ← List.take_eq_self_iff, ← hqueued]
    refine ⟨fun hsends => ?_, fun hall => ⟨c', m, hproc, hread, hwf, hcode, hmeasures, ?_⟩⟩
    · have hall := hsends.body hproc hread hwf
      rwa [hbody, List.nil_append] at hall
    · rw [hbody, List.nil_append, hall]

/-- A system whose only file is `file`, mapped at 4096. -/
def serving (file : Bytes) : Sys where
  stat _ := some ⟨0o100644, file.length⟩
  statPage _ := none
  openFile _ := some 7
  mmap len _ := if 0 < len then some 4096 else none

theorem holds_serving (name file : Bytes) : Holds (fun _ => file) (serving file) name file where
  stat := by
    have hreg : ((0o100644 : ℕ) &&& 0o170000 == 0o100000) = true := by decide +kernel
    have hread : ((0o100644 : ℕ) &&& 0o4 != 0) = true := by decide +kernel
    exact ⟨⟨0o100644, file.length⟩, rfl, hreg, hread, rfl⟩
  mmap := ⟨7, rfl, fun len => by by_cases h : 0 < len <;> simp [serving, h], fun _ _ => rfl⟩

/-- A file of two bytes. -/
theorem sends_file_iff_hi : Sends (fun _ => str "hi") [] (serving (str "hi")) HttpRequest.noDb
    (received getRoot) (str "hi") := by
  have hroom : ∀ keepAlive, ((HttpResponse.mk 200 keepAlive (str "/index.html") [] none
      ⟨0, 0⟩).head (serving (str "hi"))).length + 1 < 2 ^ 64 := by decide +kernel
  obtain ⟨request, readBuf, -, h⟩ := answerable_getRoot hroom
  exact (sends_file_iff (holds_serving _ _) h).mpr (by decide)

/-- **An empty file** is answered with 200 and a page. -/
theorem not_sends_file_empty :
    Holds (fun _ => []) (serving []) (str "/index.html") [] ∧
    (∃ c', ∃ m : Frame,
      process [] (serving []) HttpRequest.noDb (received getRoot) = .ok (true, c') ∧
      c'.writeBuf.readable = (received getRoot).writeBuf.readable ++ m.print ∧ m.WellFormed ∧
      m.code = 200 ∧ m.body ≠ []) ∧
    ¬ Sends (fun _ => []) [] (serving []) HttpRequest.noDb (received getRoot) [] := by
  have hroom : ∀ keepAlive, ((HttpResponse.mk 200 keepAlive (str "/index.html") [] none
      ⟨0, 0⟩).head (serving [])).length + 1 < 2 ^ 64 := by decide +kernel
  obtain ⟨request, readBuf, -, h⟩ := answerable_getRoot hroom
  obtain ⟨c', m, hproc, hread, hwf, hcode, ⟨-, hbody⟩ | ⟨hpositive, -⟩⟩ :=
    process_holds (holds_serving (cstr ([] ++ request.path)) []) h
  · refine ⟨holds_serving _ _, ⟨c', m, hproc, hread, hwf, hcode, hbody⟩, fun hsends => hbody ?_⟩
    exact (List.append_eq_nil_iff.mp (hsends.body hproc hread hwf)).1
  · cases hpositive

end HttpConn

end WebServer
