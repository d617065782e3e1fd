import WebServer.Buffer.Cursors
import WebServer.Machinery.Memory

/-!
# Buffer/Reset — what `retrieveAll` does to a buffer in memory

A `Buffer` at the address `addr` is five 64-bit words: the three pointers of its vector (start,
finish, end of storage), the write position and the read position.  The bytes of the vector lie
elsewhere, at its start.  `retrieveAll` clears memory from `addr` on.
-/

namespace WebServer

namespace Buffer

variable {m m' : Memory} {addr : ℕ}

/-! ## A buffer in memory -/

def start (m : Memory) (addr : ℕ) : ℕ := m.word addr

/-- The buffer that is at `addr`. -/
def view (m : Memory) (addr : ℕ) : Buffer where
  buf := m.read (start m addr) (Word.sub (m.word (addr + 8)) (start m addr))
  writePos := m.word (addr + 24)
  readPos := m.word (addr + 32)

/-- What `memset(&_buf, 0, n)` leaves of the memory, for the buffer at `addr`. -/
def inMemory (addr : ℕ) : Abi Memory := ⟨fun n m => m.clear addr n⟩

/-- The cursors of the buffer at `addr`. -/
def CursorByte (addr a : ℕ) : Prop := addr + 24 ≤ a ∧ a < addr + 40

/-- The bytes of the vector. -/
def StorageByte (m : Memory) (addr a : ℕ) : Prop :=
  start m addr ≤ a ∧ a < start m addr + (view m addr).buf.length

/-- A buffer with bytes of its own, which do not overlap with the object. -/
structure Placed (m : Memory) (addr : ℕ) : Prop where
  ok : (view m addr).Ok
  size_pos : 0 < (view m addr).buf.length
  start_ne : start m addr ≠ 0
  apart : ∀ a, StorageByte m addr a → a < addr ∨ addr + 40 ≤ a

/-- **What callers rely on**: the string is the readable bytes, and then the buffer at `addr` is
empty, of the size it had, and appending to it yields what is appended; nothing else has been
changed. -/
structure Empties (m : Memory) (addr : ℕ) (m' : Memory) : Prop where
  string : (view m addr).retrieveAllTOString (inMemory addr) m = .ok ((view m addr).readable, m')
  empty : (view m' addr).getReadableBytes = 0
  size : (view m' addr).buf.length = (view m addr).buf.length
  frame : ∀ a, ¬ CursorByte addr a → ¬ StorageByte m addr a → m' a = m a
  appends : ∀ ss : List Bytes, (view m' addr).writePos + ss.flatten.length + 1 < 2 ^ 64 →
    ∃ b', ss.foldlM append (view m' addr) = .ok b' ∧ b'.readable = ss.flatten

/-! ## The two functions -/

variable {b : Buffer}

theorem Ok.retrieveAllTOString_eq {α : Type} (h : b.Ok) (hb : b.buf ≠ []) (abi : Abi α)
    (whole : α) :
    b.retrieveAllTOString abi whole = .ok (b.readable, b.retrieveAll abi whole) := by
  rw [retrieveAllTOString, getReadPos_eq hb, ok_bind, h.getReadableBytes_eq,
    h.load_prefix le_rfl, ok_bind, List.take_length, pure_eq_ok]

/-- **One append after the other.** -/
theorem Ok.foldlM_append (h : b.Ok) (hb : b.buf ≠ []) (ss : List Bytes)
    (hroom : b.writePos + ss.flatten.length + 1 < 2 ^ 64) :
    ∃ b', ss.foldlM Buffer.append b = .ok b' ∧ b'.readable = b.readable ++ ss.flatten := by
  induction ss generalizing b with
  | nil => exact ⟨b, rfl, by rw [List.flatten_nil, List.append_nil]⟩
  | cons s ss ih =>
    rw [List.flatten_cons, List.length_append] at hroom
    obtain ⟨b₁, he, hok, hne, hread, hw⟩ := h.append (s := s) (.inl hb) (by omega)
    obtain ⟨b', he', hread'⟩ := ih hok hne (by omega)
    refine ⟨b', ?_, ?_⟩
    · rw [List.foldlM_cons, he, ok_bind, he']
    · rw [hread', hread, List.flatten_cons, List.append_assoc]

/-! ## When the reset is one -/

namespace Placed

/-- A vector whose bytes lie behind the object. -/
theorem behind (hok : (view m addr).Ok) (hsize : 0 < (view m addr).buf.length)
    (hstart : addr + 40 ≤ start m addr) : Placed m addr where
  ok := hok
  size_pos := hsize
  start_ne := by omega
  apart _ ha := .inr (hstart.trans ha.1)

theorem start_lt (m : Memory) (addr : ℕ) : start m addr < 256 ^ 8 := m.word_lt addr

/-- Fewer than eight zeros fit into the start pointer. -/
theorem size_lt (h : Placed m addr) (hdvd : 256 ^ (view m addr).buf.length ∣ start m addr) :
    (view m addr).buf.length < 8 := by
  have hle := Nat.le_of_dvd (Nat.pos_of_ne_zero h.start_ne) hdvd
  exact (Nat.pow_lt_pow_iff_right (by decide)).mp (hle.trans_lt (start_lt m addr))

/-- A byte of the vector's pointers is neither a cursor's nor the vector's. -/
theorem framed (h : Placed m addr) {a : ℕ} (hle : addr ≤ a) (hlt : a < addr + 24) :
    ¬ CursorByte addr a ∧ ¬ StorageByte m addr a := by
  refine ⟨fun hcursor => ?_, fun hstorage => ?_⟩
  · have := hcursor.1
    omega
  · have := h.apart a hstorage
    omega

/-- What is not changed outside is 0 inside. -/
theorem zeros (h : Placed m addr)
    (he : Empties m addr ((view m addr).retrieveAll (inMemory addr) m)) {k : ℕ} (hk : k ≤ 8)
    (hsize : k ≤ (view m addr).buf.length) : 256 ^ k ∣ start m addr := by
  rw [start, Memory.pow_dvd_word_iff hk]
  intro i hi
  obtain ⟨hcursor, hstorage⟩ := h.framed (a := addr + i) (by omega) (by omega)
  exact Memory.clear_eq_iff.mp (he.frame _ hcursor hstorage) (by omega) (by omega)

/-- Zeros written over zeros. -/
theorem unchanged (h : Placed m addr) (hdvd : 256 ^ (view m addr).buf.length ∣ start m addr) :
    (view m addr).retrieveAll (inMemory addr) m = m := by
  funext a
  refine Memory.clear_eq_iff.mpr fun hle hin => ?_
  obtain ⟨i, rfl⟩ := Nat.exists_eq_add_of_le hle
  exact (Memory.pow_dvd_word_iff (h.size_lt hdvd).le).mp hdvd i (by omega)

end Placed

/-- **`retrieveAll` empties the buffer if and only if it is empty already, and the `memset` changes
nothing.**  It then ends inside the start pointer, whose low bytes are 0. -/
theorem empties_iff (h : Placed m addr) :
    Empties m addr ((view m addr).retrieveAll (inMemory addr) m) ↔
      256 ^ (view m addr).buf.length ∣ start m addr ∧ (view m addr).getReadableBytes = 0 := by
  have hne : (view m addr).buf ≠ [] := List.length_pos_iff.mp h.size_pos
  constructor
  · intro he
    have hlt : (view m addr).buf.length < 8 := by
      by_contra hge
      have hdvd := h.zeros he le_rfl (by omega)
      exact h.start_ne (Nat.eq_zero_of_dvd_of_lt hdvd (Placed.start_lt m addr))
    have hdvd := h.zeros he hlt.le le_rfl
    have hempty := he.empty
    rw [h.unchanged hdvd] at hempty
    exact ⟨hdvd, hempty⟩
  · rintro ⟨hdvd, hempty⟩
    have hread : (view m addr).readable = [] := by
      rw [← List.length_eq_zero_iff, ← h.ok.getReadableBytes_eq, hempty]
    have hstring := h.ok.retrieveAllTOString_eq hne (inMemory addr) m
    rw [h.unchanged hdvd] at hstring ⊢
    refine ⟨hstring, hempty, rfl, fun _ _ _ => rfl, fun ss hroom => ?_⟩
    obtain ⟨b', he, hread'⟩ := h.ok.foldlM_append hne ss hroom
    exact ⟨b', he, by rw [hread', hread, List.nil_append]⟩

/-- A buffer at 4096 with the vector from 8192 to `256 * hi + lo`, all 0, and a write position. -/
def oneBuffer (lo hi writePos : UInt8) : Memory
  | 4097 => 32
  | 4104 | 4112 => lo
  | 4105 | 4113 => hi
  | 4120 => writePos
  | _ => 0

/-- An empty buffer of one byte. -/
theorem empties_iff_byte : Empties (oneBuffer 1 32 0) 4096
    ((view (oneBuffer 1 32 0) 4096).retrieveAll (inMemory 4096) (oneBuffer 1 32 0)) :=
  (empties_iff (.behind ⟨by decide +kernel, by decide +kernel, by decide +kernel⟩
    (by decide +kernel) (by decide +kernel))).mpr ⟨by decide +kernel, by decide +kernel⟩

/-- **Five bytes in a buffer of the default size**: the vector becomes a null one. -/
theorem not_empties_five : Placed (oneBuffer 0 36 5) 4096 ∧
    (view (oneBuffer 0 36 5) 4096).buf.length = 1024 ∧
    (view (oneBuffer 0 36 5) 4096).getReadableBytes = 5 ∧
    view ((view (oneBuffer 0 36 5) 4096).retrieveAll (inMemory 4096) (oneBuffer 0 36 5)) 4096
      = ⟨[], 0, 0⟩ ∧
    ¬ Empties (oneBuffer 0 36 5) 4096
      ((view (oneBuffer 0 36 5) 4096).retrieveAll (inMemory 4096) (oneBuffer 0 36 5)) :=
  ⟨.behind ⟨by decide +kernel, by decide +kernel, by decide +kernel⟩ (by decide +kernel)
    (by decide +kernel), by decide +kernel, by decide +kernel, by decide +kernel,
    fun he => absurd he.size (by decide +kernel)⟩

end Buffer

end WebServer
