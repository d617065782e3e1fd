import WebServer.Buffer.Cursors
import WebServer.Machinery.Decimal

/-!
# Log/Format — what `Log::write` puts into its buffer

A line is the date, the title of the level, the message and a newline.  The date and the message are
printed straight behind the write position: `snprintf` and `vsnprintf` return the length of the
whole text, whether or not it fits, and `hasWritten` is given that.
-/

namespace WebServer

namespace Log

/-- What `localtime` and `gettimeofday` say. -/
structure Now where
  tmYear : ℕ
  tmMon : ℕ
  tmMday : ℕ
  tmHour : ℕ
  tmMin : ℕ
  tmSec : ℕ
  tvUsec : ℕ
  tmYear_lt : tmYear + 1900 < 2 ^ 31
  tmMon_lt : tmMon < 12
  tmMday_le : tmMday ≤ 31
  tmHour_lt : tmHour < 24
  tmMin_lt : tmMin < 60
  tmSec_le : tmSec ≤ 60
  tvUsec_lt : tvUsec < 1000000
  deriving DecidableEq

/-- The conversion `%0`*width*`d`. -/
def padded (width n : ℕ) : Bytes :=
  List.replicate (width - (Decimal.print n).length) 48 ++ Decimal.print n

/-- The date of a line. -/
def stamp (now : Now) : Bytes :=
  padded 4 (now.tmYear + 1900) ++ str "-" ++ padded 2 (now.tmMon + 1) ++ str "-" ++
    padded 2 now.tmMday ++ str " " ++ padded 2 now.tmHour ++ str ":" ++ padded 2 now.tmMin ++
    str ":" ++ padded 2 now.tmSec ++ str "." ++ padded 6 now.tvUsec ++ str " "

def title : ℤ → Bytes
  | 0 => str "[DEBUG]: "
  | 1 => str "[INFO] : "
  | 2 => str "[WARN] : "
  | 3 => str "[ERROR]: "
  | _ => str "[INFO] : "

/-- `snprintf(pos, limit, …)`, where the text is `s`: as much of it as fits before a NUL.  A length
that no `int` holds is returned as -1. -/
def snprintf (pos limit : ℕ) (s : Bytes) (b : Buffer) : Exec (ℤ × Buffer) := do
  let b ← if 0 < limit then b.store pos (s.take (limit - 1) ++ [0]) else .ok b
  return (if s.length < 2 ^ 31 then s.length else -1, b)

def appendLogLevelTitle (level : ℤ) (b : Buffer) : Exec Buffer := b.append (title level)

/-- The date and the level. -/
def writeHead (now : Now) (level : ℤ) (b : Buffer) : Exec Buffer := do
  let p ← b.getWritePos
  let (slen, b) ← snprintf p 48 (stamp now) b
  let b := b.hasWritten (Word.ofInt slen)
  appendLogLevelTitle level b

/-- The message, which is what `format` and the arguments make, and the newline. -/
def writeBody (msg : Bytes) (b : Buffer) : Exec Buffer := do
  let p ← b.getWritePos
  let (vlen, b) ← snprintf p b.getWritableBytes msg b
  let b := b.hasWritten (Word.ofInt vlen)
  b.append (str "\n")

/-- What `write` does to `_buf` before it hands the line over. -/
def writeLine (now : Now) (level : ℤ) (msg : Bytes) (b : Buffer) : Exec Buffer := do
  let b ← writeHead now level b
  writeBody msg b

variable {now : Now} {level : ℤ} {msg s : Bytes} {b b' : Buffer}

/-! ## Lengths -/

theorem length_padded_le {width n k : ℕ} (hk : 0 < k) (hw : width ≤ k) (hn : n < 10 ^ k) :
    (padded width n).length ≤ k := by
  have := Decimal.length_print_le hk hn
  rw [padded, List.length_append, List.length_replicate]
  omega

/-- **The date always fits into its 48 bytes.** -/
theorem length_stamp_lt (now : Now) : (stamp now).length < 48 := by
  have htwo : ∀ n, n < 10 ^ 2 → (padded 2 n).length ≤ 2 := fun n =>
    length_padded_le (by decide) le_rfl
  have hyear : (padded 4 (now.tmYear + 1900)).length ≤ 10 :=
    length_padded_le (by decide) (by decide) (now.tmYear_lt.trans (by decide))
  have hmon := htwo (now.tmMon + 1) (by have := now.tmMon_lt; omega)
  have hmday := htwo now.tmMday (by have := now.tmMday_le; omega)
  have hhour := htwo now.tmHour (by have := now.tmHour_lt; omega)
  have hmin := htwo now.tmMin (by have := now.tmMin_lt; omega)
  have hsec := htwo now.tmSec (by have := now.tmSec_le; omega)
  have husec : (padded 6 now.tvUsec).length ≤ 6 :=
    length_padded_le (by decide) le_rfl now.tvUsec_lt
  have hmark : (str "-").length = 1 ∧ (str " ").length = 1 ∧ (str ":").length = 1 ∧
      (str ".").length = 1 := ⟨rfl, rfl, rfl, rfl⟩
  simp only [stamp, List.length_append, hmark]
  omega

theorem length_title (level : ℤ) : (title level).length = 9 := by
  unfold title
  split <;> rfl

/-! ## Printing behind the write position -/

/-- Whatever is printed, the vector keeps its length, and the cursors stay where they are. -/
theorem snprintf_frame {p limit : ℕ} {z : ℤ} (h : snprintf p limit s b = .ok (z, b')) :
    z = (if s.length < 2 ^ 31 then (s.length : ℤ) else -1) ∧ b'.buf.length = b.buf.length ∧
      b'.writePos = b.writePos ∧ b'.readPos = b.readPos := by
  rw [snprintf] at h
  split at h
  · obtain ⟨b₀, hstore, h⟩ := bind_eq_ok.mp h
    obtain ⟨rfl, rfl⟩ := Prod.mk.inj (Except.ok.inj h)
    exact ⟨rfl, Buffer.store_frame hstore⟩
  · obtain ⟨rfl, rfl⟩ := Prod.mk.inj (Except.ok.inj h)
    exact ⟨rfl, rfl, rfl, rfl⟩

/-- **A text no longer than its limit**: `hasWritten` makes it readable, with a NUL for its last
byte if there was no room for both. -/
theorem snprintf_hasWritten (limit : ℕ) (h : b.Ok) (hb : b.buf ≠ []) (hs : s.length < 2 ^ 31)
    (hle : s.length ≤ limit) (hroom : b.writePos + min limit (s.length + 1) ≤ b.buf.length) :
    ∃ b', snprintf b.writePos limit s b = .ok (s.length, b') ∧
      (b'.hasWritten (Word.ofInt s.length)).Ok ∧ b'.buf.length = b.buf.length ∧
      b'.readPos = b.readPos ∧
      (b'.hasWritten (Word.ofInt s.length)).readable =
        b.readable ++ (s.take (limit - 1) ++ [0]).take s.length ∧
      (b'.hasWritten (Word.ofInt s.length)).writePos = b.writePos + s.length := by
  have hint : Word.ofInt (s.length : ℤ) = s.length := Word.ofInt_natCast (by omega)
  rw [hint]
  by_cases hpos : 0 < limit
  · have hlen : (s.take (limit - 1) ++ [0]).length = min limit (s.length + 1) := by
      rw [List.length_append, List.length_take, List.length_singleton]
      omega
    obtain ⟨b', hstore, hok, -, hread, hw⟩ :=
      h.fill hb (s := s.take (limit - 1) ++ [0]) (n := s.length) (by omega) (by omega)
    refine ⟨b', ?_, hok, Buffer.store_length hstore, (Buffer.store_frame hstore).2.2, hread, hw⟩
    rw [snprintf, if_pos hpos, if_pos hs, hstore]
    rfl
  · obtain rfl : s = [] := List.length_eq_zero_iff.mp (by omega)
    have hsame : b.hasWritten 0 = b := by
      have := h.write_le
      have := h.size_lt
      rw [Buffer.hasWritten, Word.add_of_lt (by omega), Nat.add_zero]
    refine ⟨b, ?_, ?_⟩
    · rw [snprintf, if_neg hpos, if_pos hs]
      rfl
    · rw [List.length_nil, hsame, List.take_zero, List.append_nil]
      exact ⟨h, rfl, rfl, rfl, rfl⟩

/-- A text shorter than its limit is printed in full. -/
theorem take_printed {limit : ℕ} (hlt : s.length < limit) :
    (s.take (limit - 1) ++ [0]).take s.length = s := by
  have hall : s.take (limit - 1) = s := List.take_of_length_le (by omega)
  rw [hall, List.take_left]

/-! ## The date and the level -/

/-- How many bytes `vsnprintf` is offered. -/
def room (now : Now) (b : Buffer) : ℕ :=
  { b with writePos := b.writePos + (stamp now).length }.spaceFor 9 - 9

/-- **A date that fits is followed by the title**, which makes its own space. -/
theorem writeHead_eq (level : ℤ) (h : b.Ok) (hsize : b.buf.length < 2 ^ 63)
    (hfit : (stamp now).length + 1 ≤ b.buf.length - b.writePos) :
    ∃ b₁, writeHead now level b = .ok b₁ ∧ b₁.Ok ∧ b₁.buf ≠ [] ∧
      b₁.readable = b.readable ++ (stamp now ++ title level) ∧
      b₁.writePos ≤ b.writePos + (stamp now).length + 9 ∧ b₁.getWritableBytes = room now b := by
  have hlt := length_stamp_lt now
  have hw := h.write_le
  have hb : b.buf ≠ [] := List.length_pos_iff.mp (by omega)
  obtain ⟨b₀, hprint, hok, hlen, hreadPos, hread, hw₀⟩ :=
    snprintf_hasWritten 48 h hb (by omega) hlt.le (by omega)
  rw [take_printed hlt] at hread
  generalize hc : b₀.hasWritten (Word.ofInt (stamp now).length) = c at hok hread hw₀
  have htitle := length_title level
  obtain ⟨b₁, happend, hok₁, hne, hread₁, hw₁, hspace⟩ := hok.append_space (s := title level)
    (.inr (List.length_pos_iff.mp (by omega))) (by omega)
  refine ⟨b₁, ?_, hok₁, hne, ?_, by omega, ?_⟩
  · rw [writeHead, Buffer.getWritePos_eq hb, ok_bind, hprint, ok_bind]
    dsimp only
    rw [hc]
    exact happend
  · rw [hread₁, hread, List.append_assoc]
  · have hc₀ : c.buf.length = b.buf.length ∧ c.readPos = b.readPos := by
      rw [← hc, Buffer.hasWritten_buf, Buffer.hasWritten_readPos]
      exact ⟨hlen, hreadPos⟩
    simp only [hspace, htitle, room, Buffer.spaceFor, hc₀, hw₀]

/-- A date that does not fit is printed past the vector. -/
theorem writeHead_fault (level : ℤ) (h : b.Ok)
    (hfit : ¬ (stamp now).length + 1 ≤ b.buf.length - b.writePos) {b₁ : Buffer} :
    writeHead now level b ≠ .ok b₁ := by
  intro he
  have hw := h.write_le
  have hlt := length_stamp_lt now
  rw [writeHead] at he
  obtain ⟨p, hp, he⟩ := bind_eq_ok.mp he
  obtain ⟨x, hprint, -⟩ := bind_eq_ok.mp he
  obtain ⟨b₀, hstore, -⟩ := bind_eq_ok.mp hprint
  obtain ⟨-, rfl⟩ := Buffer.of_getWritePos hp
  have hlen : ((stamp now).take 47 ++ [0]).length = (stamp now).length + 1 := by
    rw [List.length_append, List.length_take, List.length_singleton]
    omega
  have hout : ¬ b.writePos + ((stamp now).take 47 ++ [0]).length ≤ b.buf.length := by omega
  have hnone : b.store b.writePos ((stamp now).take 47 ++ [0]) = .error .outOfBounds := if_neg hout
  exact absurd (hnone.symm.trans hstore) (by simp)

/-! ## The message -/

/-- The message is printed in full, or its last byte is the NUL that ends it. -/
def Fits (msg : Bytes) (room : ℕ) : Prop :=
  msg.length < 2 ^ 31 ∧ (msg.length < room ∨ msg.length = room ∧ ∀ c ∈ msg.getLast?, c = 0)

/-- **A message of which everything is kept.** -/
theorem writeBody_eq (h : b.Ok) (hb : b.buf ≠ []) (hmsg : msg.length < 2 ^ 31)
    (hle : msg.length ≤ b.getWritableBytes) (hroom : b.writePos + msg.length + 2 < 2 ^ 64) :
    ∃ b', writeBody msg b = .ok b' ∧ b'.Ok ∧ b'.readable =
      b.readable ++ (msg.take (b.getWritableBytes - 1) ++ [0]).take msg.length ++ str "\n" := by
  have hw := h.write_le
  have hspace := h.getWritableBytes_eq
  obtain ⟨b₀, hprint, hok, -, -, hread, hw₀⟩ :=
    snprintf_hasWritten b.getWritableBytes h hb hmsg hle (by omega)
  generalize hc : b₀.hasWritten (Word.ofInt msg.length) = c at hok hread hw₀
  obtain ⟨b', happend, hok', -, hread', -⟩ := hok.append (s := str "\n") (.inr (by decide))
    (by rw [hw₀]; exact hroom)
  refine ⟨b', ?_, hok', ?_⟩
  · rw [writeBody, Buffer.getWritePos_eq hb, ok_bind, hprint, ok_bind]
    dsimp only
    rw [hc, happend]
  · rw [hread', hread]

/-- What has run before the newline is appended. -/
theorem writeBody_cases (he : writeBody msg b = .ok b') :
    b.buf ≠ [] ∧ ∃ c : Buffer, c.append (str "\n") = .ok b' ∧ c.buf.length = b.buf.length ∧
      c.readPos = b.readPos ∧
      c.writePos = Word.add b.writePos
        (Word.ofInt (if msg.length < 2 ^ 31 then (msg.length : ℤ) else -1)) := by
  obtain ⟨p, hp, he⟩ := bind_eq_ok.mp he
  obtain ⟨⟨z, b₀⟩, hprint, he⟩ := bind_eq_ok.mp he
  obtain ⟨rfl, hlen, hw, hr⟩ := snprintf_frame hprint
  refine ⟨(Buffer.of_getWritePos hp).1, _, he, ?_⟩
  rw [Buffer.hasWritten_buf, Buffer.hasWritten_readPos, Buffer.hasWritten, hw]
  exact ⟨hlen, hr, rfl⟩

/-- Behind the vector the writable bytes seem to be plenty, and nothing can be written. -/
theorem append_fault (hsize : b.buf.length < b.writePos) (hw : b.writePos < 2 ^ 64) :
    b.append (str "\n") ≠ .ok b' := by
  intro he
  obtain ⟨b₁, hensure, he⟩ := bind_eq_ok.mp he
  have hspace : (str "\n").length ≤ b.getWritableBytes := by
    show 1 ≤ Word.sub b.buf.length b.writePos
    unfold Word.sub
    omega
  obtain rfl : b = b₁ := Except.ok.inj
    ((Loop.run_exit (Buffer.ensureWritablePass_exit hspace) _).symm.trans hensure)
  obtain ⟨p, hp, he⟩ := bind_eq_ok.mp he
  obtain ⟨-, rfl⟩ := Buffer.of_getWritePos hp
  obtain ⟨b₂, hstore, -⟩ := bind_eq_ok.mp he
  have hnone : b.store b.writePos (str "\n") = .error .outOfBounds := if_neg (by omega)
  exact absurd (hnone.symm.trans hstore) (by simp)

/-- **A message longer than its room**: `hasWritten` is given all of its length, and the newline
goes past the vector. -/
theorem writeBody_fault (h : b.Ok) (hmsg : msg.length < 2 ^ 31)
    (hlt : b.getWritableBytes < msg.length) (hroom : b.writePos + msg.length < 2 ^ 64) :
    writeBody msg b ≠ .ok b' := by
  intro he
  rw [h.getWritableBytes_eq] at hlt
  obtain ⟨-, c, happend, hlen, -, hw⟩ := writeBody_cases he
  rw [if_pos hmsg, Word.ofInt_natCast (by omega), Word.add_of_lt hroom] at hw
  exact append_fault (by omega) (by omega) happend

/-- **A message whose length no `int` holds** takes a byte away, in place of the newline's. -/
theorem writeBody_overflow (h : b.Ok) (hmsg : ¬ msg.length < 2 ^ 31)
    (hlt : b.readPos < b.writePos) (hroom : b.writePos + 1 < 2 ^ 64)
    (he : writeBody msg b = .ok b') : b'.readable.length = b.readable.length := by
  have hw := h.write_le
  have hsize := h.size_lt
  obtain ⟨-, c, happend, hlen, hr, hw'⟩ := writeBody_cases he
  have hminus : Word.add b.writePos (Word.ofInt (-1)) = b.writePos - 1 := by
    rw [show Word.ofInt (-1) = 2 ^ 64 - 1 from rfl, Word.add]
    omega
  rw [if_neg hmsg, hminus] at hw'
  have hok : c.Ok := ⟨by omega, by omega, by omega⟩
  obtain ⟨b₁, happend', hok₁, -, hread, -⟩ := hok.append (s := str "\n") (.inr (by decide)) (by
    rw [hw']
    show b.writePos - 1 + 1 + 1 < 2 ^ 64
    omega)
  obtain rfl : b₁ = b' := Except.ok.inj (happend'.symm.trans happend)
  rw [hread, List.length_append, hok.length_readable, h.length_readable, hw', hr]
  show b.writePos - 1 - b.readPos + 1 = _
  omega

/-! ## The line -/

/-- **What has to be in the buffer behind what was there**: the date, the title, the message or as
much of it as fits, and the newline. -/
def KeepsLine (now : Now) (level : ℤ) (msg : Bytes) (b : Buffer) : Prop :=
  ∃ (b' : Buffer) (cut : Bytes), writeLine now level msg b = .ok b' ∧ b'.Ok ∧ cut <+: msg ∧
    b'.readable = b.readable ++ (stamp now ++ title level) ++ cut ++ str "\n"

/-- A message that fits is kept in full. -/
theorem Fits.kept {limit : ℕ} (h : Fits msg limit) :
    msg.length ≤ limit ∧ (msg.take (limit - 1) ++ [0]).take msg.length = msg := by
  obtain ⟨-, hlt | ⟨rfl, hlast⟩⟩ := h
  · exact ⟨hlt.le, take_printed hlt⟩
  · refine ⟨le_rfl, ?_⟩
    rcases List.eq_nil_or_concat msg with rfl | ⟨front, c, rfl⟩
    · rfl
    · obtain rfl : c = 0 := hlast c (by simp)
      simp

/-- …and one that is kept up to its length fits. -/
theorem Fits.of_kept {limit : ℕ} (hmsg : msg.length < 2 ^ 31) (hle : msg.length ≤ limit)
    (h : (msg.take (limit - 1) ++ [0]).take msg.length = msg) : Fits msg limit := by
  refine ⟨hmsg, hle.lt_or_eq.imp_right fun heq => ⟨heq, fun c hc => ?_⟩⟩
  rw [← heq] at h
  rcases List.eq_nil_or_concat msg with rfl | ⟨front, d, rfl⟩
  · cases hc
  · rw [List.concat_eq_append] at h hc
    rw [List.length_append, List.take_of_length_le (by simp), List.length_singleton,
      Nat.add_sub_cancel, List.take_left, List.append_right_inj, List.singleton_inj] at h
    rw [List.getLast?_concat, Option.mem_some_iff] at hc
    rw [← hc, h]

/-- **The message and its newline are kept if and only if the message fits**. -/
theorem writeBody_keeps_iff (h : b.Ok) (hlt : b.readPos < b.writePos)
    (hroom : b.writePos + 2 ^ 31 + 2 < 2 ^ 64) :
    (∃ (b' : Buffer) (cut : Bytes), writeBody msg b = .ok b' ∧ b'.Ok ∧ cut <+: msg ∧
      b'.readable = b.readable ++ cut ++ str "\n") ↔ Fits msg b.getWritableBytes := by
  have hw := h.write_le
  have hb : b.buf ≠ [] := List.length_pos_iff.mp (by omega)
  constructor
  · rintro ⟨b', cut, he, -, hcut, hline⟩
    by_cases hmsg : msg.length < 2 ^ 31
    · by_cases hle : msg.length ≤ b.getWritableBytes
      · obtain ⟨b₂, he', -, hread⟩ := writeBody_eq h hb hmsg hle (by omega)
        obtain rfl : b₂ = b' := Except.ok.inj (he'.symm.trans he)
        rw [hread, List.append_left_inj, List.append_right_inj] at hline
        have hcutlen : cut.length = msg.length := by
          rw [← hline, List.length_take, List.length_append, List.length_take,
            List.length_singleton]
          omega
        obtain rfl := hcut.eq_of_length hcutlen
        exact .of_kept hmsg hle hline
      · exact absurd he (writeBody_fault h hmsg (by omega) (by omega))
    · have hlen := congrArg List.length hline
      have hless := writeBody_overflow h hmsg hlt (by omega) he
      have hnewline : (str "\n").length = 1 := rfl
      rw [List.length_append, List.length_append] at hlen
      omega
  · intro hfits
    obtain ⟨hle, hkept⟩ := hfits.kept
    have hmsg := hfits.1
    obtain ⟨b', he, hok, hread⟩ := writeBody_eq h hb hmsg hle (by omega)
    exact ⟨b', msg, he, hok, List.prefix_rfl, by rw [hread, hkept]⟩

/-- **`write` keeps the line in its buffer if and only if the date fits there, and the message fits
into the space that is left behind the title.** -/
theorem keepsLine_iff (h : b.Ok) (hsize : b.buf.length < 2 ^ 63) :
    KeepsLine now level msg b ↔
      (stamp now).length + 1 ≤ b.buf.length - b.writePos ∧ Fits msg (room now b) := by
  have hw := h.write_le
  have hstamp := length_stamp_lt now
  by_cases hfit : (stamp now).length + 1 ≤ b.buf.length - b.writePos
  · rw [and_iff_right hfit]
    obtain ⟨b₁, hhead, hok, -, hread, hw₁, hroom⟩ := writeHead_eq level h hsize hfit
    have hbody : writeLine now level msg b = writeBody msg b₁ := by
      rw [writeLine, hhead, ok_bind]
    have hlen : b₁.readable.length = b₁.writePos - b₁.readPos := hok.length_readable
    rw [hread, List.length_append, List.length_append, length_title] at hlen
    rw [← hroom, KeepsLine, hbody, ← hread]
    exact writeBody_keeps_iff hok (by omega) (by omega)
  · refine iff_of_false ?_ fun hboth => hfit hboth.1
    rintro ⟨b', cut, he, -⟩
    obtain ⟨b₁, hhead, -⟩ := bind_eq_ok.mp he
    exact writeHead_fault level h hfit hhead

def noon : Now where
  tmYear := 123
  tmMon := 7
  tmMday := 5
  tmHour := 12
  tmMin := 0
  tmSec := 0
  tvUsec := 0
  tmYear_lt := by decide
  tmMon_lt := by decide
  tmMday_le := by decide
  tmHour_lt := by decide
  tmMin_lt := by decide
  tmSec_le := by decide
  tvUsec_lt := by decide

example : stamp noon = str "2023-08-05 12:00:00.000000 " := by decide +kernel

theorem keepsLine_iff_noon : KeepsLine noon 1 (str "Server init") (.new 1024) :=
  (keepsLine_iff (Buffer.new_ok (by decide)) (by decide +kernel)).mpr
    ⟨by decide +kernel, by decide, .inl (by decide +kernel)⟩

/-- **A message of 1000 bytes in a new buffer**, where 988 bytes are left for it. -/
theorem not_keepsLine_long : (Buffer.new 1024).Ok ∧ room noon (.new 1024) = 988 ∧
    writeLine noon 1 (List.replicate 1000 65) (.new 1024) = .error .outOfBounds ∧
    ¬ KeepsLine noon 1 (List.replicate 1000 65) (.new 1024) := by
  have hout : writeLine noon 1 (List.replicate 1000 65) (.new 1024) = .error .outOfBounds := by
    decide +kernel
  refine ⟨Buffer.new_ok (by decide), by decide +kernel, hout, ?_⟩
  rintro ⟨b', cut, he, -⟩
  rw [hout] at he
  cases he

end Log

end WebServer
