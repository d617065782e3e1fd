import Mathlib

/-!
# Basic — bytes, faults, and computations that may fault

A `char` is a `Byte`, a `std::string` is a list of them.  What the program cannot survive is a
`Fault`: a failed `assert`, an access outside its object, a null pointer read.  A function that may
meet one returns an `Exec`.
-/

namespace WebServer

abbrev Byte := UInt8

abbrev Bytes := List Byte

/-- The bytes of a string literal. -/
def str (s : String) : Bytes := s.toList.map Char.toUInt8

def CR : Byte := 13

def LF : Byte := 10

def SP : Byte := 32

/-- What a C function reads of a string it is given by `c_str()`: the bytes before the first NUL. -/
def cstr (s : Bytes) : Bytes := s.takeWhile (· != 0)

inductive Fault where
  /-- A failed `assert`, with the text of its condition. -/
  | assertion (cond : String)
  /-- A read or a write outside an object. -/
  | outOfBounds
  /-- A `std::copy` whose destination starts inside the range it copies. -/
  | overlap
  | nullDeref
  /-- A call of an empty `std::function`. -/
  | badFunctionCall
  /-- Signed arithmetic that leaves its type. -/
  | overflow
  /-- A loop that has used up its passes. -/
  | running
  deriving DecidableEq, Repr

/-- A computation that may fault. -/
abbrev Exec := Except Fault

/-- `assert(c)`. -/
def assert (c : Prop) [Decidable c] (cond : String) : Exec Unit :=
  if c then .ok () else .error (.assertion cond)

/-! ## Peeling a computation apart -/

section Exec

universe u

variable {ε : Type*} {α β : Type u}

@[simp] theorem ok_bind (a : α) (f : α → Except ε β) : (Except.ok a >>= f) = f a := rfl

@[simp] theorem error_bind (e : ε) (f : α → Except ε β) :
    ((Except.error e : Except ε α) >>= f) = .error e := rfl

@[simp] theorem pure_eq_ok (a : α) : (pure a : Except ε α) = .ok a := rfl

theorem bind_eq_ok {x : Except ε α} {f : α → Except ε β} {b : β} :
    (x >>= f) = .ok b ↔ ∃ a, x = .ok a ∧ f a = .ok b := by
  cases x <;> simp

theorem bind_eq_error {x : Except ε α} {f : α → Except ε β} {e : ε} :
    (x >>= f) = .error e ↔ x = .error e ∨ ∃ a, x = .ok a ∧ f a = .error e := by
  cases x <;> simp

@[simp] theorem assert_true {c : Prop} [Decidable c] (h : c) (cond : String) :
    assert c cond = .ok () := if_pos h

theorem assert_false {c : Prop} [Decidable c] (h : ¬ c) (cond : String) :
    assert c cond = .error (.assertion cond) := if_neg h

theorem assert_eq_ok {c : Prop} [Decidable c] {cond : String} {u : Unit}
    (h : assert c cond = .ok u) : c := by
  by_contra hc
  rw [assert_false hc] at h
  cases h

end Exec

end WebServer
