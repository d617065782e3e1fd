import WebServer.Buffer.Cursors
import WebServer.Http.Response

/-!
# Http/Head — what `makeResponse` appends

`Buffer.Appends f s` says that `f` appends `s` to any buffer with room for it; it composes, so the
head of a response is read off the functions that write it.  `makeResponse_eq` gives all that
`makeResponse` does: the text `head`, and the file that is mapped for it.
-/

namespace WebServer

namespace Buffer

/-- `b'` is `b` with `s` behind it. -/
structure Extends (b b' : Buffer) (s : Bytes) : Prop where
  ok : b'.Ok
  buf_ne : b'.buf ≠ []
  readable : b'.readable = b.readable ++ s
  writePos_le : b'.writePos ≤ b.writePos + s.length

/-- `f` appends `s`. -/
def Appends (f : Buffer → Exec Buffer) (s : Bytes) : Prop :=
  ∀ b : Buffer, b.Ok → b.writePos + s.length + 1 < 2 ^ 64 → ∃ b', f b = .ok b' ∧ b.Extends b' s

variable {f g : Buffer → Exec Buffer} {s t : Bytes}

theorem appends_append (hs : s ≠ []) : Appends (·.append s) s := by
  intro b hb hroom
  obtain ⟨b', he, hok, hne, hread, hw⟩ := hb.append (.inr hs) hroom
  exact ⟨b', he, hok, hne, hread, hw⟩

/-- **One after the other, they append both texts.** -/
theorem Appends.bind (hf : Appends f s) (hg : Appends g t) :
    Appends (fun b => f b >>= g) (s ++ t) := by
  intro b hb hroom
  rw [List.length_append] at hroom
  obtain ⟨b₁, he₁, h₁⟩ := hf b hb (by omega)
  have hw₁ := h₁.writePos_le
  obtain ⟨b₂, he₂, h₂⟩ := hg b₁ h₁.ok (by omega)
  have hw₂ := h₂.writePos_le
  refine ⟨b₂, (congrArg (· >>= g) he₁).trans he₂, h₂.ok, h₂.buf_ne, ?_, ?_⟩
  · rw [h₂.readable, h₁.readable, List.append_assoc]
  · rw [List.length_append]
    omega

/-- What runs in the same way appends the same. -/
theorem Appends.of_eq (hf : Appends f s) (h : ∀ b, g b = f b) : Appends g s := by
  obtain rfl : g = f := funext h
  exact hf

end Buffer

namespace HttpResponse

variable (r : HttpResponse) (sys : Sys)

/-! ## The text -/

/-- The code that `_addStateLine` announces. -/
def announced : HttpResponse :=
  { r with code := if (STATUS_CODE.lookup r.code).isSome then r.code else 400 }

/-- The response as its head is written: the file is looked up and the code is settled. -/
def settled : HttpResponse := ((r.statFile sys).errorHtml sys).announced

/-- Where the file is mapped, if it is. -/
def mapping : Option ℕ := (sys.openFile (cstr (r.srcDir ++ r.path))).bind (sys.mmap r.fileStat.size)

def stateLine : Bytes :=
  str "HTTP/1.1 " ++ str (toString r.code) ++ str " " ++ (STATUS_CODE.lookup r.code).getD []
    ++ str "\r\n"

def headerLines : Bytes :=
  str "Connection: "
    ++ (if r.keepAlive then str "keep-alive\r\n" ++ str "keep-alive: max=10, timeout=120\r\n"
        else str "close\r\n")
    ++ (str "Content-type: " ++ r.getFileType ++ str "\r\n")

/-- The length, the blank line, and the page that stands in for a file that is not mapped. -/
def content : Bytes :=
  match r.mapping sys with
  | some _ => str "Content-length: " ++ str (toString r.fileStat.size) ++ str "\r\n\r\n"
  | none =>
    str "Content-length: " ++ str (toString (r.errorBody (str "File NotFound!")).length)
      ++ str "\r\n\r\n" ++ r.errorBody (str "File NotFound!")

/-- What `makeResponse` writes. -/
def head : Bytes :=
  (r.settled sys).stateLine ++ ((r.settled sys).headerLines ++ (r.settled sys).content sys)

/-! ## The settled response -/

/-- The code for the answer of `stat`. -/
def status : Option Stat → ℤ
  | none => 404
  | some st => if st.isDir then 404 else if st.othersRead then 200 else 403

/-- The code is one of three. -/
theorem status_cases (st : Option Stat) : status st = 404 ∨ status st = 403 ∨ status st = 200 := by
  cases st with
  | none => exact .inl rfl
  | some st =>
    rw [status]
    split
    · exact .inl rfl
    · split
      · exact .inr (.inr rfl)
      · exact .inr (.inl rfl)

/-- Such a code is announced as it is. -/
theorem announced_of_status {r : HttpResponse} {st : Option Stat} (h : r.code = status st) :
    r.announced = r := by
  have hcode :
      (if (STATUS_CODE.lookup (status st)).isSome then status st else 400) = status st := by
    obtain hst | hst | hst := status_cases st <;> rw [hst] <;> rfl
  rw [announced, h, hcode, ← h]

/-- The name under which the file is looked up. -/
def fileName : Bytes := cstr (r.srcDir ++ r.path)

theorem statFile_eq : r.statFile sys =
    { r with
      code := status (sys.stat r.fileName)
      fileStat := (sys.stat r.fileName).getD r.fileStat } := by
  rw [statFile, ← fileName]
  cases sys.stat r.fileName with
  | none => rfl
  | some st => cases hdir : st.isDir <;> cases hread : st.othersRead <;> simp [status, hdir, hread]

theorem errorHtml_eq (r : HttpResponse) (sys : Sys) : r.errorHtml sys =
    { r with
      path := (ERROR_CODE.lookup r.code).getD r.path
      fileStat := ((ERROR_CODE.lookup r.code).bind fun page =>
        sys.statPage (cstr (r.srcDir ++ page))).getD r.fileStat } := by
  rw [errorHtml]
  cases ERROR_CODE.lookup r.code with
  | none => rfl
  | some page =>
    dsimp only [Option.bind_some, Option.getD_some]
    cases sys.statPage (cstr (r.srcDir ++ page)) <;> rfl

/-- The page of an error code. -/
def page : Option Bytes := ERROR_CODE.lookup (status (sys.stat r.fileName))

/-- **The settled response**: the code for the answer of `stat`, and the file's path, or the page of
the code in its place. -/
theorem settled_eq : r.settled sys =
    { r with
      code := status (sys.stat r.fileName)
      path := (r.page sys).getD r.path
      fileStat := ((r.page sys).bind fun page => sys.statPage (cstr (r.srcDir ++ page))).getD
        ((sys.stat r.fileName).getD r.fileStat) } := by
  rw [settled, statFile_eq, errorHtml_eq, announced_of_status rfl]
  rfl

/-! ## The functions that write it -/

variable {r sys}

theorem addHeader_appends : Buffer.Appends r.addHeader r.headerLines := by
  have htype : Buffer.Appends
      (·.append (str "Content-type: " ++ r.getFileType ++ str "\r\n"))
      (str "Content-type: " ++ r.getFileType ++ str "\r\n") :=
    Buffer.appends_append (by simp [str])
  have hconn : Buffer.Appends (·.append (str "Connection: ")) (str "Connection: ") :=
    Buffer.appends_append (by decide)
  rw [headerLines]
  cases hk : r.keepAlive with
  | true =>
    have hkeep := (Buffer.appends_append (s := str "keep-alive\r\n") (by decide)).bind
      (Buffer.appends_append (s := str "keep-alive: max=10, timeout=120\r\n") (by decide))
    refine ((hconn.bind hkeep).bind htype).of_eq fun b => ?_
    rw [addHeader]
    simp [hk, bind_assoc]
  | false =>
    have hclose := Buffer.appends_append (s := str "close\r\n") (by decide)
    refine ((hconn.bind hclose).bind htype).of_eq fun b => ?_
    rw [addHeader]
    simp [hk, bind_assoc]

theorem addStateLine_eq (b : Buffer) : r.addStateLine b = (do
    let b ← b.append r.announced.stateLine
    return (r.announced, b)) := rfl

theorem errorContent_appends (message : Bytes) :
    Buffer.Appends (fun b => r.errorContent b message)
      (str "Content-length: " ++ str (toString (r.errorBody message).length) ++ str "\r\n\r\n"
        ++ r.errorBody message) :=
  (Buffer.appends_append (by simp [str])).bind (Buffer.appends_append (by simp [errorBody, str]))

/-- `_addContent`: its text, and the file if it could be mapped. -/
theorem addContent_eq (r : HttpResponse) (sys : Sys) {b : Buffer} (hb : b.Ok)
    (hroom : b.writePos + (r.content sys).length + 1 < 2 ^ 64) :
    ∃ b' calls, r.addContent sys b = .ok ({ r with file := (r.mapping sys).or r.file }, b', calls) ∧
      b.Extends b' (r.content sys) := by
  rw [content] at hroom ⊢
  rw [addContent]
  cases hopen : sys.openFile (cstr (r.srcDir ++ r.path)) with
  | none =>
    have hmap : r.mapping sys = none := by rw [mapping, hopen, Option.bind_none]
    rw [hmap] at hroom ⊢
    obtain ⟨b', he, hext⟩ := errorContent_appends (r := r) (str "File NotFound!") b hb hroom
    exact ⟨b', [], by simp only [he, ok_bind, pure_eq_ok, Option.none_or], hext⟩
  | some fd =>
    have hmap : r.mapping sys = sys.mmap r.fileStat.size fd := by
      rw [mapping, hopen, Option.bind_some]
    rw [hmap] at hroom ⊢
    cases hmmap : sys.mmap r.fileStat.size fd with
    | none =>
      rw [hmmap] at hroom
      obtain ⟨b', he, hext⟩ := errorContent_appends (r := r) (str "File NotFound!") b hb hroom
      exact ⟨b', [.openFile fd],
        by simp only [he, hmmap, ok_bind, pure_eq_ok, Option.none_or], hext⟩
    | some addr =>
      rw [hmmap] at hroom
      obtain ⟨b', he, hext⟩ := Buffer.appends_append (by simp [str]) b hb hroom
      exact ⟨b', [.openFile fd, .mmap addr r.fileStat.size, .close fd],
        by simp only [he, hmmap, ok_bind, pure_eq_ok, Option.some_or], hext⟩

/-- **All that `makeResponse` does**: it appends the head, and keeps the file if there is one. -/
theorem makeResponse_eq {b : Buffer} (hb : b.Ok)
    (hroom : b.writePos + (r.head sys).length + 1 < 2 ^ 64) :
    ∃ b' calls, r.makeResponse sys b = .ok ({ r.settled sys with
        file := ((r.settled sys).mapping sys).or (r.settled sys).file }, b', calls) ∧
      b.Extends b' (r.head sys) := by
  simp only [head, List.length_append] at hroom
  obtain ⟨b₁, he₁, h₁⟩ := Buffer.appends_append (s := (r.settled sys).stateLine)
    (by simp [stateLine, str]) b hb (by omega)
  have hw₁ := h₁.writePos_le
  obtain ⟨b₂, he₂, h₂⟩ := addHeader_appends (r := r.settled sys) b₁ h₁.ok (by omega)
  have hw₂ := h₂.writePos_le
  obtain ⟨b₃, calls, he₃, h₃⟩ := addContent_eq (r.settled sys) sys h₂.ok (by omega)
  have hw₃ := h₃.writePos_le
  refine ⟨b₃, calls, ?_, h₃.ok, h₃.buf_ne, ?_, ?_⟩
  · rw [settled] at he₁ he₂ he₃
    rw [makeResponse]
    simp only [addStateLine_eq, he₁, ok_bind, pure_eq_ok, he₂, he₃]
    rfl
  · rw [h₃.readable, h₂.readable, h₁.readable, head, List.append_assoc, List.append_assoc]
  · simp only [head, List.length_append]
    omega

end HttpResponse

end WebServer
