import WebServer.Log.Format

/-!
# Log/Members — the members of `Log` behind `_buf`, and what `retrieveAll` leaves of them

`_fp`, `_que`, `_write_thread` and `_m` come behind `_buf` in a `Log`, and the rest of its members
before it.  `retrieveAll` clears as many bytes as the vector of `_buf` has, from the vector object
on: a vector of 1024 bytes takes all of them with it.  What lies behind the `Log` is left out.

A platform is what its `memset` does to these members (`Abi`).  `Clears` is what is known of it
wherever the log is laid out in the order of its declaration, `Voids` and `Wipes` where a vector
object has no more than 1024 bytes, and where the members behind it end within 1024 bytes.
-/

namespace WebServer

namespace Buffer

/-- What a C function reads from `getReadPos()` on. -/
def readString (b : Buffer) : Exec Bytes := do
  let p ← b.getReadPos
  if 0 ∈ b.buf.drop p then return cstr (b.buf.drop p) else .error .outOfBounds

variable {b b' : Buffer}

/-- A text that fits behind a read position in a vector that is not empty is a C string. -/
theorem readString_eq (hb : b.buf ≠ []) (hnul : 0 ∈ b.buf.drop b.readPos) :
    b.readString = .ok (cstr (b.buf.drop b.readPos)) := by
  rw [readString, getReadPos_eq hb, ok_bind, if_pos hnul, pure_eq_ok]

theorem of_readString {text : Bytes} (h : b.readString = .ok text) :
    0 ∈ b.buf.drop b.readPos := by
  obtain ⟨p, hp, h⟩ := bind_eq_ok.mp h
  obtain ⟨q, hq, hpos⟩ := bind_eq_ok.mp hp
  obtain ⟨u, -, hzero⟩ := bind_eq_ok.mp hq
  obtain rfl := Except.ok.inj hzero
  obtain rfl := Except.ok.inj hpos
  rw [Nat.zero_add] at h
  by_contra hnul
  rw [if_neg hnul] at h
  cases h

theorem of_retrieveAllTOString {α : Type} {abi : Abi α} {whole left : α} {text : Bytes}
    (h : b.retrieveAllTOString abi whole = .ok (text, left)) :
    left = b.retrieveAll abi whole := by
  obtain ⟨p, -, h⟩ := bind_eq_ok.mp h
  obtain ⟨s, -, h⟩ := bind_eq_ok.mp h
  exact (Prod.mk.inj (Except.ok.inj h)).2.symm

/-! ## A vector does not get shorter -/

theorem extendSpace_length {len : ℕ} (hread : b.readPos ≤ b.writePos)
    (hroom : b.writePos + len + 1 < 2 ^ 64) (hsize : b.buf.length < 2 ^ 64)
    (h : b.extendSpace len = .ok b') : b.buf.length ≤ b'.buf.length := by
  rw [extendSpace] at h
  split at h
  · next hfull =>
    obtain rfl := Except.ok.inj h
    simp only [getWritableBytes, getPrependableBytes, Word.add, Word.sub] at hfull
    simp only [resize, Word.add, List.length_append, List.length_take, List.length_replicate]
    omega
  · obtain ⟨p, -, h⟩ := bind_eq_ok.mp h
    obtain ⟨b₁, hcopy, h⟩ := bind_eq_ok.mp h
    obtain rfl := Except.ok.inj h
    exact (copy_length hcopy).ge

theorem append_length {s : Bytes} (hread : b.readPos ≤ b.writePos)
    (hroom : b.writePos + s.length + 1 < 2 ^ 64) (hsize : b.buf.length < 2 ^ 64)
    (h : b.append s = .ok b') : b.buf.length ≤ b'.buf.length := by
  obtain ⟨b₁, hensure, h⟩ := bind_eq_ok.mp h
  obtain ⟨p, -, h⟩ := bind_eq_ok.mp h
  obtain ⟨b₂, hstore, h⟩ := bind_eq_ok.mp h
  obtain rfl := Except.ok.inj h
  refine le_of_le_of_eq ?_ (store_length hstore).symm
  rw [ensureWritable] at hensure
  by_cases hfull : b.getWritableBytes < s.length
  · rcases he : b.extendSpace s.length with e | b₃
    · have hpass : ensureWritablePass s.length b = .error e := by
        rw [ensureWritablePass, if_pos hfull, he, error_bind]
      rw [Loop.run_error hpass] at hensure
      cases hensure
    · rw [Loop.run_next (ensureWritablePass_next hfull he),
        Loop.run_exit (ensureWritablePass_exit (extendSpace_space (by omega) he))] at hensure
      obtain rfl := Except.ok.inj hensure
      exact extendSpace_length hread hroom hsize he
  · rw [Loop.run_exit (ensureWritablePass_exit (not_lt.mp hfull))] at hensure
    exact (Except.ok.inj hensure ▸ le_rfl)

/-- What has been appended is in a vector. -/
theorem append_ne_nil {s : Bytes} (hs : s ≠ []) (h : b.append s = .ok b') : b'.buf ≠ [] := by
  obtain ⟨b₁, -, h⟩ := bind_eq_ok.mp h
  obtain ⟨p, -, h⟩ := bind_eq_ok.mp h
  obtain ⟨b₂, hstore, h⟩ := bind_eq_ok.mp h
  obtain rfl := Except.ok.inj h
  have hpos := List.length_pos_iff.mpr hs
  refine List.length_pos_iff.mp ?_
  rw [hasWritten_buf, store_length hstore]
  rw [store] at hstore
  split at hstore
  · omega
  · cases hstore

end Buffer

namespace Log

/-- A call of `write`: when it is made, the level, and the message that `format` and the arguments
make. -/
structure Record where
  now : Now
  level : ℤ
  msg : Bytes
  deriving DecidableEq

/-- `_buf`, and whether the pointers behind it are other than null. -/
structure Members where
  buf : Buffer
  hasFp : Bool
  hasQue : Bool
  hasThread : Bool
  deriving DecidableEq

/-- With `_m`, by who holds it. -/
structure Guarded (κ : Type) extends Members where
  holder : Option κ
  deriving DecidableEq

/-- Nothing but zeros. -/
def Members.null : Members := ⟨⟨[], 0, 0⟩, false, false, false⟩

def Guarded.null {κ : Type} : Guarded κ := { Members.null with holder := none }

/-- A pointer is followed. -/
def deref (hasObject : Bool) : Exec Unit := if hasObject then .ok () else .error .nullDeref

theorem deref_eq_ok {hasObject : Bool} {u : Unit} (h : deref hasObject = .ok u) :
    hasObject = true := by
  cases hasObject with
  | true => rfl
  | false => cases h

/-! ## Platforms -/

section Platform

variable {α κ : Type}

/-- **A vector of 1024 bytes does not outlive `retrieveAll`**: its pointers are the first bytes
behind `&_buf`. -/
def Voids (abi : Abi α) (buf : α → Buffer) : Prop :=
  ∀ n whole, 1024 ≤ n → (buf (abi.zeroed n whole)).buf = []

/-- **A `memset` clears from the vector object on**: it has changed nothing but the buffer, or the
vector is null and the lock as it was or a free one. -/
structure Clears (abi : Abi (Guarded κ)) : Prop where
  nothing : ∀ g, abi.zeroed 0 g = g
  forward : ∀ n g, (∃ buf, abi.zeroed n g = { g with buf := buf }) ∨ (abi.zeroed n g).buf.buf = [] ∧
    ((abi.zeroed n g).holder = g.holder ∨ (abi.zeroed n g).holder = none)

/-- **1024 bytes reach beyond the members.** -/
structure Wipes (abi : Abi (Guarded κ)) : Prop extends Clears abi where
  whole : ∀ n g, 1024 ≤ n → abi.zeroed n g = .null

theorem Wipes.voids {abi : Abi (Guarded κ)} (h : Wipes abi) : Voids abi fun g => g.buf :=
  fun n g hn => by rw [h.whole n g hn]; rfl

/-- A platform whose zeros are `null`.  The vector of a log has 1024 bytes or more, or none. -/
def wiped (null : α) : Abi α := ⟨fun n whole => if n < 1024 then whole else null⟩

theorem wipes_wiped : Wipes (wiped (Guarded.null : Guarded κ)) where
  nothing g := rfl
  forward n g := by
    by_cases hn : n < 1024
    · exact .inl ⟨g.buf, if_pos hn⟩
    · refine .inr ?_
      rw [show (wiped Guarded.null).zeroed n g = .null from if_neg hn]
      exact ⟨rfl, .inr rfl⟩
  whole n g hn := if_neg (not_lt.mpr hn)

end Platform

/-! ## A line in `_buf` -/

variable {now : Now} {level : ℤ} {msg : Bytes} {b b' : Buffer}

/-- **No line is written into a null vector.** -/
theorem ne_nil_of_writeLine (h : writeLine now level msg b = .ok b') : b.buf ≠ [] := by
  obtain ⟨b₁, hhead, -⟩ := bind_eq_ok.mp h
  obtain ⟨p, hp, -⟩ := bind_eq_ok.mp hhead
  exact (Buffer.of_getWritePos hp).1

theorem writeLine_ne_nil (h : writeLine now level msg b = .ok b') : b'.buf ≠ [] := by
  obtain ⟨b₁, -, hbody⟩ := bind_eq_ok.mp h
  obtain ⟨-, c, happend, -⟩ := writeBody_cases hbody
  exact Buffer.append_ne_nil (by decide) happend

/-- **A line whose message fits.** -/
theorem writeLine_eq (h : b.Ok) (hsize : b.buf.length < 2 ^ 63)
    (hfit : (stamp now).length + 1 ≤ b.buf.length - b.writePos) (hmsg : Fits msg (room now b)) :
    ∃ b', writeLine now level msg b = .ok b' ∧ b'.Ok ∧
      b'.readable = b.readable ++ (stamp now ++ title level) ++ msg ++ str "\n" := by
  have hstamp := length_stamp_lt now
  have hw := h.write_le
  have hlen := hmsg.1
  obtain ⟨b₁, hhead, hok, hb, hread, hw₁, hroom⟩ := writeHead_eq level h hsize hfit
  rw [← hroom] at hmsg
  obtain ⟨hle, hkept⟩ := hmsg.kept
  obtain ⟨b', hbody, hok', hread'⟩ := writeBody_eq hok hb hlen hle (by omega)
  refine ⟨b', ?_, hok', ?_⟩
  · rw [writeLine, hhead, ok_bind, hbody]
  · rw [hread', hkept, hread]

theorem writeHead_length (h : b.Ok) (hsize : b.buf.length < 2 ^ 63)
    (he : writeHead now level b = .ok b') : b.buf.length ≤ b'.buf.length := by
  have hstamp := length_stamp_lt now
  have htitle := length_title level
  have hread := h.read_le
  have hwrite := h.write_le
  rw [writeHead] at he
  obtain ⟨p, -, he⟩ := bind_eq_ok.mp he
  obtain ⟨⟨z, b₀⟩, hprint, happend⟩ := bind_eq_ok.mp he
  obtain ⟨hz, hlen, hw, hr⟩ := snprintf_frame hprint
  have hint : Word.ofInt z = (stamp now).length := by
    rw [hz, if_pos (by omega), Word.ofInt_natCast (by omega)]
  replace happend : (b₀.hasWritten (Word.ofInt z)).append (title level) = .ok b' := happend
  rw [hint] at happend
  have hcursor : (b₀.hasWritten (stamp now).length).writePos
      = b.writePos + (stamp now).length := by
    rw [Buffer.hasWritten, hw, Word.add_of_lt (by omega)]
  rw [← hlen, ← Buffer.hasWritten_buf b₀ (stamp now).length]
  refine Buffer.append_length ?_ ?_ ?_ happend
  · rw [hcursor, Buffer.hasWritten_readPos]
    omega
  · rw [hcursor]
    omega
  · rw [Buffer.hasWritten_buf]
    omega

/-- **A line leaves `_buf` no shorter than it was.** -/
theorem writeLine_length (h : b.Ok) (hsize : b.buf.length < 2 ^ 62)
    (he : writeLine now level msg b = .ok b') : b.buf.length ≤ b'.buf.length := by
  obtain ⟨b₁, hhead, hbody⟩ := bind_eq_ok.mp he
  refine (writeHead_length h (hsize.trans (by decide)) hhead).trans ?_
  have hfit : (stamp now).length + 1 ≤ b.buf.length - b.writePos := by
    by_contra hnot
    exact writeHead_fault level h hnot hhead
  obtain ⟨b₂, hhead', hok, -, hread, hw, -⟩ := writeHead_eq level h (hsize.trans (by decide)) hfit
  obtain rfl := Except.ok.inj (hhead'.symm.trans hhead)
  have hlt : b₂.readPos < b₂.writePos := by
    have hreadable := hok.length_readable
    rw [hread, List.length_append, List.length_append, length_title] at hreadable
    omega
  have hstamp := length_stamp_lt now
  have hwrite := h.write_le
  obtain ⟨-, c, happend, hlen, hr, hcw⟩ := writeBody_cases hbody
  have hcursor : c.readPos ≤ c.writePos ∧ c.writePos < 2 ^ 63 := by
    rw [hr, hcw]
    split
    · next hmsg =>
      rw [Word.ofInt_natCast (by omega), Word.add_of_lt (by omega)]
      omega
    · rw [show Word.ofInt (-1) = 2 ^ 64 - 1 from rfl, Word.add]
      omega
  have hone : (str "\n").length = 1 := rfl
  have hsize₂ := hok.size_lt
  rw [← hlen]
  exact Buffer.append_length hcursor.1 (by omega) (by omega) happend

end Log

end WebServer
