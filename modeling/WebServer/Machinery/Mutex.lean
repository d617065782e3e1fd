import WebServer.Machinery.Threads

/-!
# Machinery/Mutex — the one thread that holds a lock

A lock is given by the places in which a thread holds it.  `Owns` says that the holder written down
is the thread that stands in such a place, and that no other does; taking the lock, leaving it and
any other step of one thread keep it.  `Held` and `Lone` are what is left of it when the holder may
be forgotten: whoever is written down stands in such a place, and some places take one thread only.
-/

namespace Mutex

variable {ι P : Type*} {holds : P → Bool} {pc : ι → P} {holder : Option ι} {i j : ι} {a : P}

/-- The holder is whoever stands in a place of `holds`. -/
def Owns (holds : P → Bool) (pc : ι → P) (holder : Option ι) : Prop :=
  ∀ i, holds (pc i) = true ↔ holder = some i

namespace Owns

/-- **Two threads do not hold the lock.** -/
theorem unique (h : Owns holds pc holder) (hi : holds (pc i) = true) (hj : holds (pc j) = true) :
    i = j :=
  Option.some.inj (((h i).mp hi).symm.trans ((h j).mp hj))

variable [DecidableEq ι]

theorem take (h : Owns holds pc none) (ha : holds a = true) :
    Owns holds (Function.update pc i a) (some i) := by
  intro j
  obtain rfl | hj := eq_or_ne j i
  · simp only [Function.update_self, ha]
  · rw [Function.update_of_ne hj, h j, Option.some.injEq, eq_comm (a := i)]
    simp [hj]

theorem leave (h : Owns holds pc holder) (hi : holds (pc i) = true) (ha : holds a = false) :
    Owns holds (Function.update pc i a) none := by
  intro j
  obtain rfl | hj := eq_or_ne j i
  · simp [ha]
  · have hne : holds (pc j) ≠ true := fun hn => hj (h.unique hn hi)
    simp [Function.update_of_ne hj, hne]

theorem stay (h : Owns holds pc holder) (ha : holds a = holds (pc i)) :
    Owns holds (Function.update pc i a) holder := by
  intro j
  obtain rfl | hj := eq_or_ne j i
  · rw [Function.update_self, ha]
    exact h j
  · rw [Function.update_of_ne hj]
    exact h j

end Owns

/-! ## A holder that may be forgotten -/

variable {p : P → Bool}

/-- Whoever is written down as the holder stands in a place of `holds`. -/
def Held (holds : P → Bool) (pc : ι → P) (holder : Option ι) : Prop :=
  ∀ i, holder = some i → holds (pc i) = true

/-- No two threads stand in places of `p`. -/
def Lone (p : P → Bool) (pc : ι → P) : Prop :=
  ∀ i j, p (pc i) = true → p (pc j) = true → i = j

theorem Owns.held (h : Owns holds pc holder) : Held holds pc holder := fun i => (h i).mpr

theorem Owns.lone (h : Owns holds pc holder) (hp : ∀ a, p a = true → holds a = true) :
    Lone p pc :=
  fun _ _ hi hj => h.unique (hp _ hi) (hp _ hj)

theorem Held.none : Held holds pc none := nofun

variable [DecidableEq ι]

theorem Held.take (ha : holds a = true) : Held holds (Function.update pc i a) (some i) := by
  rintro j ⟨⟩
  rwa [Function.update_self]

theorem Held.stay (h : Held holds pc holder) (ha : holds a = holds (pc i)) :
    Held holds (Function.update pc i a) holder := by
  intro j hj
  obtain rfl | hne := eq_or_ne j i
  · rw [Function.update_self, ha]
    exact h j hj
  · rw [Function.update_of_ne hne]
    exact h j hj

/-- A step of a thread that stood in a place of `p`, or does not come to one. -/
theorem Lone.stay (h : Lone p pc) (ha : p a = true → p (pc i) = true) :
    Lone p (Function.update pc i a) := by
  have hback : ∀ j, p (Function.update pc i a j) = true → p (pc j) = true := by
    intro j hj
    obtain rfl | hne := eq_or_ne j i
    · rw [Function.update_self] at hj
      exact ha hj
    · rwa [Function.update_of_ne hne] at hj
  exact fun j k hj hk => h j k (hback j hj) (hback k hk)

end Mutex
