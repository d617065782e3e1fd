import WebServer.Basic
import WebServer.Machinery.Loop
import WebServer.Machinery.Word

/-!
# Buffer/Model — `src/buffer/buffer.cc`

A `Buffer` is a vector of bytes with two cursors.  A pointer into the vector is its offset from the
first byte; reads and writes through pointers are `load` and `store`, which fault outside the
vector.  The cursors are `size_t` and their arithmetic wraps.
-/

namespace WebServer

structure Buffer where
  buf : Bytes
  writePos : ℕ
  readPos : ℕ
  deriving DecidableEq, Repr

/-- What `memset` over `n` bytes from a `Buffer` on leaves of the object `α` that the buffer is a
part of.  That depends on how the platform lays the object out. -/
structure Abi (α : Type*) where
  zeroed : ℕ → α → α

namespace Buffer

/-- `Buffer::Buffer(int init_size)`. -/
def new (initSize : ℕ) : Buffer := ⟨List.replicate initSize 0, 0, 0⟩

variable (b : Buffer)

/-! ## Memory -/

/-- The bytes at `[first, last)`. -/
def load (first last : ℕ) : Exec Bytes :=
  if first ≤ last ∧ last ≤ b.buf.length then .ok ((b.buf.drop first).take (last - first))
  else .error .outOfBounds

/-- The bytes `s` written from `p` on. -/
def store (p : ℕ) (s : Bytes) : Exec Buffer :=
  if p + s.length ≤ b.buf.length then
    .ok { b with buf := b.buf.take p ++ s ++ b.buf.drop (p + s.length) }
  else .error .outOfBounds

/-- `std::copy(first, last, dst)` inside the vector. -/
def copy (first last dst : ℕ) : Exec Buffer := do
  let s ← b.load first last
  if first ≤ dst ∧ dst < last then .error .overlap else b.store dst s

/-- `_buf.resize(n)`. -/
def resize (n : ℕ) : Buffer :=
  { b with buf := b.buf.take n ++ List.replicate (n - b.buf.length) 0 }

/-! ## Cursors -/

def getWritableBytes : ℕ := Word.sub b.buf.length b.writePos

def getReadableBytes : ℕ := Word.sub b.writePos b.readPos

def getPrependableBytes : ℕ := b.readPos

def beginCharPtr : Exec ℕ := do
  assert (b.buf ≠ []) "!_buf.empty()"
  return 0

def getReadPos : Exec ℕ := do
  let p ← b.beginCharPtr
  return p + b.readPos

def getWritePos : Exec ℕ := do
  let p ← b.beginCharPtr
  return p + b.writePos

def hasWritten (len : ℕ) : Buffer := { b with writePos := Word.add b.writePos len }

def retrieve (len : ℕ) : Exec Buffer := do
  assert (len ≤ b.getReadableBytes) "len <= getReadableBytes()"
  return { b with readPos := Word.add b.readPos len }

def retrieveUntil (pos : ℕ) : Exec Buffer := do
  let p ← b.getReadPos
  assert (p ≤ pos) "pos >= getReadPos()"
  b.retrieve (pos - p)

/-- `memset(&_buf, 0, _buf.size())`: the vector object itself is where the zeros start. -/
def retrieveAll {α : Type*} (abi : Abi α) (whole : α) : α := abi.zeroed b.buf.length whole

/-- `retrieveAllTOString`, with what becomes of the object that the buffer is a part of. -/
def retrieveAllTOString {α : Type} (abi : Abi α) (whole : α) : Exec (Bytes × α) := do
  let p ← b.getReadPos
  let str ← b.load p (p + b.getReadableBytes)
  return (str, b.retrieveAll abi whole)

/-! ## Space -/

def extendSpace (len : ℕ) : Exec Buffer :=
  if Word.add b.getWritableBytes b.getPrependableBytes < len then
    .ok (b.resize (Word.add (Word.add b.writePos len) 1))
  else do
    let readableLen := b.getReadableBytes
    let p ← b.beginCharPtr
    let b ← b.copy (p + b.readPos) (p + b.writePos) p
    return { b with readPos := 0, writePos := Word.add 0 readableLen }

/-- One pass of the loop in `ensureWritable`. -/
def ensureWritablePass (len : ℕ) (b : Buffer) : Exec (Loop.Pass Buffer Buffer) :=
  if b.getWritableBytes < len then do
    let b ← b.extendSpace len
    return .next b
  else return .exit b

/-- The first `_extendSpace` makes the space, so the second pass leaves. -/
def ensureWritable (len : ℕ) : Exec Buffer := Loop.run .running (ensureWritablePass len) 2 b

def append (s : Bytes) : Exec Buffer := do
  let b ← b.ensureWritable s.length
  let p ← b.getWritePos
  let b ← b.store p s
  return b.hasWritten s.length

end Buffer

end WebServer
