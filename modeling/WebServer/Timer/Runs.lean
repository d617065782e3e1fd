import WebServer.Machinery.Machine
import WebServer.Timer.Sift

/-!
# Timer/Runs — a timer that is added to and postponed

The constructor's 64 blank nodes are never indexed and, as long as every deadline is after the
epoch, never move: they are what stops `_siftup`, which has no case for the root.  `Holds` says that
the nodes behind them are those of a registry, which remembers what was last asked for each id; a
run keeps it, together with the order of the whole heap (`machine_safe`).
-/

namespace WebServer

namespace Timer

open HeapOrder

variable {κ : Type} {t t' : Timer κ}

/-- For each registered id, its last deadline and its callback. -/
abbrev Registry (κ : Type) := ℤ → Option (ℤ × Option κ)

variable {reg : Registry κ} {id e : ℤ} {cb : Option κ} {base i k : ℕ}

/-- From `base` on the heap holds the nodes of the registry, and the index is exact. -/
structure Holds (base : ℕ) (reg : Registry κ) (t : Timer κ) : Prop where
  refExact : RefExact base t
  nodes : ∀ id e cb, reg id = some (e, cb) ↔ ∃ k, base ≤ k ∧ t.heap[k]? = some ⟨id, e, cb⟩

namespace Holds

theorem permutes (h : Holds base reg t) (hp : Permutes base t t') : Holds base reg t' where
  refExact := h.refExact.permutes hp
  nodes id e cb := by
    rw [h.nodes]
    have hiff := hp.exists_iff fun node => node = ⟨id, e, cb⟩
    simp only [exists_eq_right] at hiff
    exact hiff.symm

/-- The index points to the node of a registered id. -/
theorem ref_iff (h : Holds base reg t) : t.ref id = some k ↔
    base ≤ k ∧ ∃ e cb, reg id = some (e, cb) ∧ t.heap[k]? = some ⟨id, e, cb⟩ := by
  rw [h.refExact]
  constructor
  · rintro ⟨hk, ⟨id', e, cb⟩, hnode, rfl⟩
    exact ⟨hk, e, cb, (h.nodes _ _ _).mpr ⟨k, hk, hnode⟩, hnode⟩
  · rintro ⟨hk, e, cb, -, hnode⟩
    exact ⟨hk, _, hnode, rfl⟩

theorem ref_isSome_iff (h : Holds base reg t) : (t.ref id).isSome ↔ (reg id).isSome := by
  rw [Option.isSome_iff_exists, Option.isSome_iff_exists]
  constructor
  · rintro ⟨k, hk⟩
    obtain ⟨-, e, cb, hreg, -⟩ := h.ref_iff.mp hk
    exact ⟨_, hreg⟩
  · rintro ⟨⟨e, cb⟩, hreg⟩
    obtain ⟨k, hk, hnode⟩ := (h.nodes _ _ _).mp hreg
    exact ⟨k, h.ref_iff.mpr ⟨hk, e, cb, hreg, hnode⟩⟩

theorem ref_eq_none (h : Holds base reg t) (hreg : reg id = none) : t.ref id = none := by
  rw [← Option.not_isSome_iff_eq_none, h.ref_isSome_iff, hreg]
  exact Bool.false_ne_true

/-- **A node placed at a position that is its id's, or free while its id has none.** -/
theorem place (h : Holds base reg t) (hi : base ≤ i)
    (hstand : ∀ k node, base ≤ k → t.heap[k]? = some node → (node.id = id ↔ k = i))
    {heap : List (TimerNode κ)}
    (hget : ∀ k node, heap[k]? = some node ↔
      k = i ∧ node = ⟨id, e, cb⟩ ∨ k ≠ i ∧ t.heap[k]? = some node) :
    Holds base (Function.update reg id (some (e, cb)))
      ⟨heap, Function.update t.ref id (some i)⟩ := by
  constructor
  · intro id' k
    simp only [hget]
    obtain rfl | hid := eq_or_ne id' id
    · rw [Function.update_self]
      constructor
      · intro hk
        obtain rfl := Option.some.inj hk
        exact ⟨hi, _, .inl ⟨rfl, rfl⟩, rfl⟩
      · rintro ⟨hk, node, ⟨rfl, -⟩ | ⟨hki, hnode⟩, hid⟩
        · rfl
        · exact absurd ((hstand k node hk hnode).mp hid) hki
    · rw [Function.update_of_ne hid, h.refExact]
      constructor
      · rintro ⟨hk, node, hnode, rfl⟩
        exact ⟨hk, node, .inr ⟨mt (hstand k node hk hnode).mpr hid, hnode⟩, rfl⟩
      · rintro ⟨hk, node, ⟨-, rfl⟩ | ⟨-, hnode⟩, rfl⟩
        · exact absurd rfl hid
        · exact ⟨hk, node, hnode, rfl⟩
  · intro id' e' cb'
    simp only [hget]
    obtain rfl | hid := eq_or_ne id' id
    · rw [Function.update_self]
      constructor
      · intro hnode
        obtain ⟨rfl, rfl⟩ := Prod.mk.inj (Option.some.inj hnode)
        exact ⟨i, hi, .inl ⟨rfl, rfl⟩⟩
      · rintro ⟨k, hk, ⟨-, hnode⟩ | ⟨hki, hnode⟩⟩
        · obtain ⟨-, rfl, rfl⟩ := TimerNode.mk.inj hnode
          rfl
        · exact absurd ((hstand k _ hk hnode).mp rfl) hki
    · rw [Function.update_of_ne hid, h.nodes]
      constructor
      · rintro ⟨k, hk, hnode⟩
        exact ⟨k, hk, .inr ⟨mt (hstand k _ hk hnode).mpr hid, hnode⟩⟩
      · rintro ⟨k, hk, ⟨-, hnode⟩ | ⟨-, hnode⟩⟩
        · exact absurd (TimerNode.mk.inj hnode).1 hid
        · exact ⟨k, hk, hnode⟩

/-- A new node at the end, indexed there. -/
theorem push (h : Holds base reg t) (hlen : base ≤ t.heap.length) (hreg : reg id = none) (e : ℤ)
    (cb : Option κ) :
    Holds base (Function.update reg id (some (e, cb)))
      ⟨t.heap ++ [⟨id, e, cb⟩], Function.update t.ref id (some t.heap.length)⟩ := by
  refine h.place hlen (fun k node hk hnode => iff_of_false ?_ ?_) fun k node => ?_
  · intro hid
    have href := (h.refExact _ _).mpr ⟨hk, node, hnode, hid⟩
    rw [h.ref_eq_none hreg] at href
    cases href
  · obtain ⟨hlt, -⟩ := List.getElem?_eq_some_iff.mp hnode
    exact hlt.ne
  · obtain hk | rfl | hk := lt_trichotomy k t.heap.length
    · rw [List.getElem?_append_left hk]
      simp [hk.ne]
    · simp [eq_comm]
    · rw [List.getElem?_eq_none (by simp; omega)]
      simp [hk.ne', List.getElem?_eq_none hk.le]

/-- A new deadline and callback where the id stands. -/
theorem set (h : Holds base reg t) (hi : t.ref id = some i) (e : ℤ) (cb : Option κ) :
    Holds base (Function.update reg id (some (e, cb)))
      { t with heap := t.heap.set i ⟨id, e, cb⟩ } := by
  obtain ⟨hbase, old, hold, hid⟩ := (h.refExact _ _).mp hi
  obtain ⟨hlt, -⟩ := List.getElem?_eq_some_iff.mp hold
  have href : Function.update t.ref id (some i) = t.ref := Function.update_eq_self_iff.mpr hi.symm
  rw [← href]
  refine h.place hbase (fun k node hk hnode => ⟨fun hid' => ?_, fun hki => ?_⟩) fun k node => ?_
  · exact Option.some.inj (((h.refExact _ _).mpr ⟨hk, node, hnode, hid'⟩).symm.trans hi)
  · subst hki
    rw [Option.some.inj (hnode.symm.trans hold), hid]
  · obtain rfl | hk := eq_or_ne k i
    · simp [List.getElem?_set_self hlt, eq_comm]
    · simp [List.getElem?_set_ne hk.symm, hk]

end Holds

/-! ## The calls, branch by branch -/

section Calls

variable {node : TimerNode κ}

/-- `add` of an id that is not registered puts a node behind the others and sifts it up. -/
theorem add_new (href : t.ref id = none) (hid : 0 ≤ id) (now timeout : ℤ) (tcb : Option κ) :
    t.add id now timeout tcb =
      siftup ⟨t.heap ++ [⟨id, deadline now timeout, tcb⟩],
        Function.update t.ref id (some t.heap.length)⟩ t.heap.length := by
  rw [add, assert_true hid, ok_bind, href]
  rfl

/-- `add` of a registered id puts a node in the place of another. -/
theorem add_registered (href : t.ref id = some i) (hnode : t.heap[i]? = some node)
    (hsame : node.id = id) (hid : 0 ≤ id) (now timeout : ℤ) (tcb : Option κ) :
    t.add id now timeout tcb =
      .ok { t with heap := t.heap.set i ⟨id, deadline now timeout, tcb⟩ } := by
  rw [add, assert_true hid, ok_bind, href]
  simp only [nodeAt_eq hnode, ok_bind, hsame, pure_eq_ok]

/-- `adjustExpire` does so too, and sifts it down. -/
theorem adjustExpire_registered (href : t.ref id = some i) (hnode : t.heap[i]? = some node)
    (now timeout : ℤ) : t.adjustExpire id now timeout =
      siftdown { t with heap := t.heap.set i { node with expire := deadline now timeout } } i := by
  rw [adjustExpire, href]
  simp only [nodeAt_eq hnode, ok_bind]

end Calls

/-! ## The runs -/

/-- A call of the timer: on an id, by the clock and a timeout. -/
inductive Op (κ : Type) where
  | add (id now timeout : ℤ) (tcb : Option κ)
  | adjustExpire (id now timeout : ℤ)

namespace Op

/-- A new id with a deadline after the epoch, or a registered one with a deadline not before its
last. -/
def Legal (reg : Registry κ) : Op κ → Prop
  | add id now timeout _ => 0 ≤ id ∧ reg id = none ∧ 0 < deadline now timeout
  | adjustExpire id now timeout => ∃ e cb, reg id = some (e, cb) ∧ e ≤ deadline now timeout

def exec (t : Timer κ) : Op κ → Exec (Timer κ)
  | add id now timeout tcb => t.add id now timeout tcb
  | adjustExpire id now timeout => t.adjustExpire id now timeout

/-- What a call is to the registry. -/
def spec (reg : Registry κ) : Op κ → Registry κ
  | add id now timeout tcb => Function.update reg id (some (deadline now timeout, tcb))
  | adjustExpire id now timeout =>
    Function.update reg id ((reg id).map fun r => (deadline now timeout, r.2))

end Op

/-- A timer from its constructor on, beside its registry. -/
def machine (κ : Type) : Machine Fault (Registry κ × Timer κ) (Op κ) where
  init s := s = (fun _ => none, new)
  legal s op := op.Legal s.1
  exec s op := do
    let t ← op.exec s.2
    return (op.spec s.1, t)

/-- **The invariant**: the blank nodes are where they were, the heap is in order, the rest of it is
the registry, and every deadline in that is after the epoch. -/
structure Kept (reg : Registry κ) (t : Timer κ) : Prop where
  blanks : ∀ k < 64, t.heap[k]? = some blank
  ordered : Ordered t.heap.length t.key
  holds : Holds 64 reg t
  positive : ∀ id e cb, reg id = some (e, cb) → 0 < e

namespace Kept

theorem heap_new (k : ℕ) :
    (Timer.new : Timer κ).heap[k]? = if k < 64 then some blank else none :=
  List.getElem?_replicate

theorem new : Kept (fun _ => none) (new : Timer κ) where
  blanks k hk := by rw [heap_new, if_pos hk]
  ordered c _ hc := by
    have hkey : ∀ k, (Timer.new : Timer κ).key k = 0 := by
      intro k
      rw [key, heap_new]
      split <;> rfl
    rw [hkey, hkey]
  holds := by
    refine ⟨fun id k => iff_of_false (by simp [Timer.new]) ?_,
      fun id e cb => iff_of_false (by simp) ?_⟩
    · rintro ⟨hk, node, hnode, -⟩
      rw [heap_new, if_neg (by omega)] at hnode
      cases hnode
    · rintro ⟨k, hk, hnode⟩
      rw [heap_new, if_neg (by omega)] at hnode
      cases hnode
  positive _ _ _ h := by cases h

theorem le_length (h : Kept reg t) : 64 ≤ t.heap.length := by
  obtain ⟨hlt, -⟩ := List.getElem?_eq_some_iff.mp (h.blanks 63 (by omega))
  exact hlt

theorem positive_update (h : Kept reg t) (he : 0 < e) {id' e' : ℤ} {cb' : Option κ}
    (hreg : Function.update reg id (some (e, cb)) id' = some (e', cb')) : 0 < e' := by
  obtain rfl | hne := eq_or_ne id' id
  · rw [Function.update_self] at hreg
    exact (Prod.mk.inj (Option.some.inj hreg)).1 ▸ he
  · rw [Function.update_of_ne hne] at hreg
    exact h.positive _ _ _ hreg

/-- Sifting keeps all but the order. -/
theorem of_permutes (hblanks : ∀ k < 64, t.heap[k]? = some blank) (hholds : Holds 64 reg t)
    (hpos : ∀ id e cb, reg id = some (e, cb) → 0 < e) (hp : Permutes 64 t t')
    (hord : Ordered t'.heap.length t'.key) : Kept reg t' :=
  ⟨fun k hk => (hp.heap_eq hk).trans (hblanks k hk), hord, hholds.permutes hp, hpos⟩

/-- **`add` of a new id.** -/
theorem add (h : Kept reg t) {now timeout : ℤ} (hid : 0 ≤ id) (hreg : reg id = none)
    (hpos : 0 < deadline now timeout) (tcb : Option κ) :
    ∃ t', t.add id now timeout tcb = .ok t' ∧
      Kept (Function.update reg id (some (deadline now timeout, tcb))) t' := by
  have hlen := h.le_length
  have hholds := h.holds.push hlen hreg (deadline now timeout) tcb
  generalize ht₁ : (⟨t.heap ++ [⟨id, deadline now timeout, tcb⟩],
    Function.update t.ref id (some t.heap.length)⟩ : Timer κ) = t₁ at hholds
  obtain ⟨hkey, hnew⟩ : (∀ k < t.heap.length, t₁.key k = t.key k) ∧
      t₁.key t.heap.length = deadline now timeout := by
    rw [← ht₁]
    exact key_push _ _
  have hsize : t₁.heap.length = t.heap.length + 1 := by
    rw [← ht₁]
    simp
  have hblanks : ∀ k < 64, t₁.heap[k]? = some blank := by
    intro k hk
    rw [← ht₁, List.getElem?_append_left (by omega)]
    exact h.blanks k hk
  have hup : UpOrdered t₁.heap.length t₁.key t.heap.length := by
    rw [hsize]
    exact h.ordered.push hkey
  obtain ⟨t', he, hperm, hord⟩ := siftup_spec (by omega) hholds.refExact le_rfl hlen (by omega) hup
    fun k hk => by rwa [key_eq (hblanks k hk), hnew]
  refine ⟨t', ?_, .of_permutes hblanks hholds (fun _ _ _ => h.positive_update hpos) hperm hord⟩
  rw [add_new (h.holds.ref_eq_none hreg) hid, ht₁, he]

/-- **`adjustExpire` to a deadline that is not earlier.** -/
theorem adjustExpire (h : Kept reg t) {now timeout : ℤ} (hreg : reg id = some (e, cb))
    (hle : e ≤ deadline now timeout) :
    ∃ t', t.adjustExpire id now timeout = .ok t' ∧
      Kept (Function.update reg id (some (deadline now timeout, cb))) t' := by
  obtain ⟨i, hi, hnode⟩ := (h.holds.nodes _ _ _).mp hreg
  have href : t.ref id = some i := h.holds.ref_iff.mpr ⟨hi, e, cb, hreg, hnode⟩
  obtain ⟨hin, -⟩ := List.getElem?_eq_some_iff.mp hnode
  have hholds := h.holds.set href (deadline now timeout) cb
  generalize ht₁ : { t with heap := t.heap.set i ⟨id, deadline now timeout, cb⟩ } = t₁ at hholds
  have hsize : t₁.heap.length = t.heap.length := by
    rw [← ht₁]
    exact List.length_set
  have hblanks : ∀ k < 64, t₁.heap[k]? = some blank := by
    intro k hk
    rw [← ht₁, List.getElem?_set_ne (by omega)]
    exact h.blanks k hk
  have hdown : DownOrdered t₁.heap.length t₁.key i := by
    rw [hsize, ← ht₁, key_set hin]
    refine h.ordered.replace_down (fun k _ hk => Function.update_of_ne hk _ _) hin fun hi0 => ?_
    rw [Function.update_self]
    exact (h.ordered i hi0 hin).trans (by rwa [key_eq hnode])
  obtain ⟨t', he, hperm, hord⟩ := siftdown_spec hholds.refExact hi (hsize ▸ hin) hdown
  have hpos : 0 < deadline now timeout := (h.positive _ _ _ hreg).trans_le hle
  refine ⟨t', ?_, .of_permutes hblanks hholds (fun _ _ _ => h.positive_update hpos) hperm hord⟩
  rw [adjustExpire_registered href hnode, ht₁, he]

end Kept

/-- **Every legal call succeeds and keeps the invariant.** -/
theorem machine_safe : (machine κ).Safe fun s => Kept s.1 s.2 where
  init s hs := hs ▸ Kept.new
  step s op hs hl := by
    cases op with
    | add id now timeout tcb =>
      obtain ⟨t', he, ht'⟩ := hs.add hl.1 hl.2.1 hl.2.2 tcb
      exact ⟨_, bind_eq_ok.mpr ⟨t', he, rfl⟩, ht'⟩
    | adjustExpire id now timeout =>
      obtain ⟨e, cb, hreg, hle⟩ := hl
      obtain ⟨t', he, ht'⟩ := hs.adjustExpire hreg hle
      refine ⟨_, bind_eq_ok.mpr ⟨t', he, rfl⟩, ?_⟩
      simpa only [Op.spec, hreg, Option.map_some] using ht'

/-- **A timer that is added to and postponed**: no call of a run fails, the blank nodes stay, no
child is earlier than its parent, and the index is exact for the registered ids. -/
theorem runs_exact {reg : Registry κ} {t : Timer κ} (h : (machine κ).Reach (reg, t)) :
    (∀ op : Op κ, op.Legal reg → ∃ t', op.exec t = .ok t') ∧
    (∀ k < 64, t.heap[k]? = some blank) ∧
    (∀ (c : ℕ) (a b : TimerNode κ), 0 < c → t.heap[c]? = some a → t.heap[(c - 1) / 2]? = some b →
      ¬ a.before b) ∧
    (∀ id k, t.ref id = some k ↔
      64 ≤ k ∧ ∃ e cb, reg id = some (e, cb) ∧ t.heap[k]? = some ⟨id, e, cb⟩) ∧
    (∀ id, (t.ref id).isSome ↔ (reg id).isSome) ∧
    ∀ k node, 64 ≤ k → t.heap[k]? = some node → t.ref node.id = some k := by
  have hkept : Kept reg t := machine_safe.reach h
  refine ⟨fun op hl => ?_, hkept.blanks, fun c a b hc ha hb => ?_, fun id k => hkept.holds.ref_iff,
    fun id => hkept.holds.ref_isSome_iff, fun k node hk hnode => ?_⟩
  · obtain ⟨s', he, -⟩ := machine_safe.step_of_reach h hl
    obtain ⟨t', he, -⟩ := bind_eq_ok.mp he
    exact ⟨t', he⟩
  · obtain ⟨hcn, -⟩ := List.getElem?_eq_some_iff.mp ha
    rw [before_iff ha hb, not_lt]
    exact hkept.ordered c hc hcn
  · exact (hkept.holds.refExact _ _).mpr ⟨hk, node, hnode, rfl⟩

theorem runs_exact_postponed : ∃ (reg : Registry ℕ) (t : Timer ℕ), t.ref 3 = some 64 ∧
    ∃ e cb, reg 3 = some (e, cb) ∧ t.heap[64]? = some ⟨3, e, cb⟩ := by
  have h₁ : (machine ℕ).Reach (_, _) :=
    .step (o := .add 3 5 0 (some 30)) (.init rfl) ⟨by decide, rfl, by decide⟩ rfl
  have h₂ : (machine ℕ).Reach (_, _) :=
    .step (o := .adjustExpire 3 9 0) h₁ ⟨5, some 30, rfl, by decide⟩ rfl
  exact ⟨_, _, rfl, (((runs_exact h₂).2.2.2.1 3 64).mp rfl).2⟩

end Timer

end WebServer
