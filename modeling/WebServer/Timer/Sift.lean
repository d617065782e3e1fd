import WebServer.Machinery.HeapOrder
import WebServer.Timer.Model

/-!
# Timer/Sift — the sifts order the heap and keep the index exact

A sift only exchanges nodes, so what it makes of a timer is a permutation of positions: `Moved π`
says that the nodes have moved by `π` and the index with them.  `swap_moved` is the step lemma,
`siftup_spec` and `siftdown_spec` are the two loops, over the general order of
`Machinery/HeapOrder`.  The first `base` positions are not indexed and do not move.
-/

namespace WebServer

namespace Timer

open HeapOrder

variable {κ : Type} {t t' t'' : Timer κ} {π σ : Equiv.Perm ℕ} {base indexed i j k : ℕ}
  {node : TimerNode κ}

/-- The deadline at a position. -/
def key (t : Timer κ) (k : ℕ) : ℤ := ((t.heap[k]?).map TimerNode.expire).getD 0

theorem key_eq (h : t.heap[k]? = some node) : t.key k = node.expire := by simp [key, h]

theorem nodeAt_eq (h : t.heap[k]? = some node) : t.nodeAt k = .ok node := by simp [nodeAt, h]

theorem exists_node (h : k < t.heap.length) : ∃ node, t.heap[k]? = some node :=
  ⟨t.heap[k], List.getElem?_eq_getElem h⟩

/-- A node that is put in the place of another changes one deadline. -/
theorem key_set (hi : i < t.heap.length) (node : TimerNode κ) :
    ({ t with heap := t.heap.set i node } : Timer κ).key
      = Function.update t.key i node.expire := by
  funext k
  obtain rfl | hk := eq_or_ne k i
  · rw [Function.update_self, key_eq (List.getElem?_set_self hi)]
  · rw [Function.update_of_ne hk, key, List.getElem?_set_ne hk.symm, key]

/-- A node behind the others. -/
theorem key_push (node : TimerNode κ) (ref : ℤ → Option ℕ) :
    (∀ k < t.heap.length, (⟨t.heap ++ [node], ref⟩ : Timer κ).key k = t.key k) ∧
      (⟨t.heap ++ [node], ref⟩ : Timer κ).key t.heap.length = node.expire := by
  refine ⟨fun k hk => ?_, key_eq List.getElem?_concat_length⟩
  rw [key, List.getElem?_append_left hk, key]

/-- `operator<` compares deadlines. -/
theorem before_iff {a b : TimerNode κ} (ha : t.heap[i]? = some a) (hb : t.heap[j]? = some b) :
    a.before b = true ↔ t.key i < t.key j := by
  rw [key_eq ha, key_eq hb, TimerNode.before, decide_eq_true_eq]

/-- From `base` on, `_ref` says exactly where each id stands. -/
def RefExact (base : ℕ) (t : Timer κ) : Prop :=
  ∀ id k, t.ref id = some k ↔ base ≤ k ∧ ∃ node, t.heap[k]? = some node ∧ node.id = id

/-! ## Moving nodes -/

/-- `t'` is `t` with the nodes moved by `π`: what stood at `π k` is at `k`. -/
structure Moved (π : Equiv.Perm ℕ) (t t' : Timer κ) : Prop where
  length_eq : t'.heap.length = t.heap.length
  heap_eq : ∀ k, t'.heap[k]? = t.heap[π k]?
  ref_eq : ∀ id, t'.ref id = (t.ref id).map π.symm

theorem Moved.refl (t : Timer κ) : Moved (Equiv.refl ℕ) t t :=
  ⟨rfl, fun _ => rfl, fun id => by simp⟩

theorem Moved.trans (h : Moved π t t') (h' : Moved σ t' t'') : Moved (σ.trans π) t t'' := by
  refine ⟨h'.length_eq.trans h.length_eq, fun k => ?_, fun id => ?_⟩
  · rw [h'.heap_eq, h.heap_eq, Equiv.trans_apply]
  · rw [h'.ref_eq, h.ref_eq, Option.map_map]
    rfl

theorem Moved.key_eq (h : Moved π t t') : t'.key = t.key ∘ π := by
  ext k
  rw [key, h.heap_eq, Function.comp_apply, key]

/-- `t'` is `t` with nodes moved among the positions from `base` on. -/
def Permutes (base : ℕ) (t t' : Timer κ) : Prop :=
  ∃ π, Moved π t t' ∧ ∀ k < base, π k = k

theorem Permutes.refl (base : ℕ) (t : Timer κ) : Permutes base t t := ⟨_, .refl t, fun _ _ => rfl⟩

theorem Permutes.trans (h : Permutes base t t') (h' : Permutes base t' t'') :
    Permutes base t t'' := by
  obtain ⟨π, hπ, hfix⟩ := h
  obtain ⟨σ, hσ, hfix'⟩ := h'
  exact ⟨_, hπ.trans hσ, fun k hk => by rw [Equiv.trans_apply, hfix' k hk, hfix k hk]⟩

theorem Permutes.mono (h : Permutes base t t') (hle : indexed ≤ base) : Permutes indexed t t' := by
  obtain ⟨π, hπ, hfix⟩ := h
  exact ⟨π, hπ, fun k hk => hfix k (hk.trans_le hle)⟩

theorem Permutes.length_eq (h : Permutes base t t') : t'.heap.length = t.heap.length := by
  obtain ⟨π, hπ, -⟩ := h
  exact hπ.length_eq

theorem Permutes.heap_eq (h : Permutes base t t') (hk : k < base) : t'.heap[k]? = t.heap[k]? := by
  obtain ⟨π, hπ, hfix⟩ := h
  rw [hπ.heap_eq, hfix k hk]

theorem Permutes.key_eq (h : Permutes base t t') (hk : k < base) : t'.key k = t.key k := by
  rw [key, h.heap_eq hk, key]

theorem base_le_iff (hfix : ∀ k < base, π k = k) (k : ℕ) : base ≤ π k ↔ base ≤ k := by
  constructor
  · intro h
    by_contra hk
    rw [hfix k (by omega)] at h
    exact hk h
  · intro h
    by_contra hk
    have := π.injective (hfix (π k) (by omega))
    omega

/-- **Moving nodes keeps the index exact.** -/
theorem RefExact.permutes (h : RefExact base t) (hp : Permutes base t t') : RefExact base t' := by
  obtain ⟨π, hπ, hfix⟩ := hp
  intro id k
  have hmoved : t'.ref id = some k ↔ t.ref id = some (π k) := by
    rw [hπ.ref_eq, Option.map_eq_some_iff]
    constructor
    · rintro ⟨m, hm, rfl⟩
      rw [hm, Equiv.apply_symm_apply]
    · exact fun hm => ⟨π k, hm, π.symm_apply_apply k⟩
  rw [hmoved, h id (π k), base_le_iff hfix, hπ.heap_eq]

/-- **The nodes from `base` on are the same**, wherever they stand. -/
theorem Permutes.exists_iff (h : Permutes base t t') (P : TimerNode κ → Prop) :
    (∃ k, base ≤ k ∧ ∃ node, t'.heap[k]? = some node ∧ P node) ↔
      ∃ k, base ≤ k ∧ ∃ node, t.heap[k]? = some node ∧ P node := by
  obtain ⟨π, hπ, hfix⟩ := h
  constructor
  · rintro ⟨k, hk, node, hnode, hP⟩
    exact ⟨π k, (base_le_iff hfix k).mpr hk, node, by rw [← hπ.heap_eq, hnode], hP⟩
  · rintro ⟨k, hk, node, hnode, hP⟩
    refine ⟨π.symm k, (base_le_iff hfix _).mp (by rwa [π.apply_symm_apply]), node, ?_, hP⟩
    rw [hπ.heap_eq, π.apply_symm_apply, hnode]

/-- A lower bound of the deadlines stays one. -/
theorem Permutes.le_key (h : Permutes base t t') {e : ℤ}
    (hmin : ∀ k < t.heap.length, e ≤ t.key k) : ∀ k < t'.heap.length, e ≤ t'.key k := by
  obtain ⟨π, hπ, -⟩ := h
  intro k hk
  obtain ⟨node, hnode⟩ := exists_node hk
  rw [hπ.heap_eq] at hnode
  obtain ⟨hlt, -⟩ := List.getElem?_eq_some_iff.mp hnode
  rw [hπ.key_eq]
  exact hmin _ hlt

/-- Different positions have different ids. -/
theorem RefExact.nodup (h : RefExact 0 t) : t.heap.Nodup := by
  refine List.nodup_iff_getElem?_ne_getElem?.mpr fun i j hij hj heq => hij.ne ?_
  obtain ⟨node, hnode⟩ := exists_node hj
  have hi := (h node.id i).mpr ⟨Nat.zero_le i, node, heq.trans hnode, rfl⟩
  have hj := (h node.id j).mpr ⟨Nat.zero_le j, node, hnode, rfl⟩
  exact Option.some.inj (hi.symm.trans hj)

/-- **The nodes of the whole heap are the same.** -/
theorem Permutes.perm (h : Permutes base t t') (hexact : RefExact 0 t) :
    t'.heap.Perm t.heap := by
  have h₀ := h.mono (Nat.zero_le base)
  refine (List.perm_ext_iff_of_nodup (hexact.permutes h₀).nodup hexact.nodup).mpr fun node => ?_
  simpa [List.mem_iff_getElem?] using h₀.exists_iff (· = node)

/-! ## One exchange -/

theorem getElem?_exchange {α : Type*} {l : List α} {a b : α} (ha : l[i]? = some a)
    (hb : l[j]? = some b) (k : ℕ) : ((l.set i b).set j a)[k]? = l[Equiv.swap i j k]? := by
  obtain ⟨hi, -⟩ := List.getElem?_eq_some_iff.mp ha
  obtain ⟨hj, -⟩ := List.getElem?_eq_some_iff.mp hb
  obtain rfl | hkj := eq_or_ne k j
  · rw [Equiv.swap_apply_right, List.getElem?_set_self (by simpa using hj), ha]
  · rw [List.getElem?_set_ne hkj.symm]
    obtain rfl | hki := eq_or_ne k i
    · rw [Equiv.swap_apply_left, List.getElem?_set_self hi, hb]
    · rw [List.getElem?_set_ne hki.symm, Equiv.swap_apply_of_ne_of_ne hki hkj]

/-- **`_swap` exchanges two nodes**, and the index follows. -/
theorem swap_moved (hexact : RefExact base t) (hi : base ≤ i) (hj : base ≤ j)
    (hin : i < t.heap.length) (hjn : j < t.heap.length) :
    ∃ t', t.swap i j = .ok t' ∧ Moved (Equiv.swap i j) t t' := by
  obtain ⟨a, ha⟩ := exists_node hin
  obtain ⟨b, hb⟩ := exists_node hjn
  have hheap := getElem?_exchange ha hb
  have hai := hheap i
  have hbj := hheap j
  rw [Equiv.swap_apply_left, hb] at hai
  rw [Equiv.swap_apply_right, ha] at hbj
  refine ⟨⟨(t.heap.set i b).set j a,
    Function.update (Function.update t.ref b.id (some i)) a.id (some j)⟩, ?_, by simp, hheap,
    fun id => ?_⟩
  · simp only [swap, assert_true hin, assert_true hjn, ok_bind, nodeAt, ha, hb, setRef, hai, hbj,
      pure_eq_ok]
  · have hra : t.ref a.id = some i := (hexact _ _).mpr ⟨hi, a, ha, rfl⟩
    have hrb : t.ref b.id = some j := (hexact _ _).mpr ⟨hj, b, hb, rfl⟩
    dsimp only
    obtain rfl | hida := eq_or_ne id a.id
    · rw [Function.update_self, hra, Option.map_some, Equiv.symm_swap, Equiv.swap_apply_left]
    · rw [Function.update_of_ne hida]
      obtain rfl | hidb := eq_or_ne id b.id
      · rw [Function.update_self, hrb, Option.map_some, Equiv.symm_swap, Equiv.swap_apply_right]
      · rw [Function.update_of_ne hidb]
        cases hr : t.ref id with
        | none => rfl
        | some k =>
          obtain ⟨-, node, hnode, hid⟩ := (hexact _ _).mp hr
          have hki : k ≠ i := by
            rintro rfl
            exact hida (by rw [← hid, Option.some.inj (hnode.symm.trans ha)])
          have hkj : k ≠ j := by
            rintro rfl
            exact hidb (by rw [← hid, Option.some.inj (hnode.symm.trans hb)])
          rw [Option.map_some, Equiv.symm_swap, Equiv.swap_apply_of_ne_of_ne hki hkj]

/-- An exchange from `base` on moves nothing before it. -/
theorem Moved.permutes (h : Moved (Equiv.swap i j) t t') (hi : base ≤ i) (hj : base ≤ j) :
    Permutes base t t' :=
  ⟨_, h, fun _ hk => Equiv.swap_apply_of_ne_of_ne (by omega) (by omega)⟩

/-! ## `_siftup` -/

theorem parent_of_pos (hi : 0 < i) : parent i = HeapOrder.parent i := if_neg hi.ne'

/-- A pass of `_siftup` leaves where the parent is before the node. -/
theorem siftupPass_exit (hi : 0 < i) (hin : i < t.heap.length)
    (hlt : t.key (HeapOrder.parent i) < t.key i) : siftupPass (t, i) = .ok (.exit t) := by
  obtain ⟨a, ha⟩ := exists_node ((parent_lt hi).trans hin)
  obtain ⟨b, hb⟩ := exists_node hin
  rw [← before_iff ha hb] at hlt
  simp only [siftupPass, parent_of_pos hi, nodeAt_eq ha, nodeAt_eq hb, ok_bind, if_pos hlt,
    pure_eq_ok]

/-- …and exchanges the two where it is not. -/
theorem siftupPass_next (hexact : RefExact base t) (hj : base ≤ HeapOrder.parent i) (hi : 0 < i)
    (hin : i < t.heap.length) (hle : t.key i ≤ t.key (HeapOrder.parent i)) :
    ∃ t', siftupPass (t, i) = .ok (.next (t', HeapOrder.parent i)) ∧
      Moved (Equiv.swap i (HeapOrder.parent i)) t t' := by
  have hji := parent_lt hi
  obtain ⟨a, ha⟩ := exists_node (hji.trans hin)
  obtain ⟨b, hb⟩ := exists_node hin
  rw [← not_lt, ← before_iff ha hb] at hle
  obtain ⟨t', he, hmoved⟩ := swap_moved hexact (hj.trans hji.le) hj hin (hji.trans hin)
  refine ⟨t', ?_, hmoved⟩
  simp only [siftupPass, parent_of_pos hi, nodeAt_eq ha, nodeAt_eq hb, ok_bind, if_neg hle, he,
    pure_eq_ok]

/-- Where a pass of `_siftup` stands: nodes have moved, the one in question is at `i`, and the heap
is in order but for it. -/
structure Rising (base : ℕ) (t₀ : Timer κ) (e : ℤ) (s : Timer κ × ℕ) : Prop where
  permutes : Permutes base t₀ s.1
  ordered : UpOrdered s.1.heap.length s.1.key s.2
  base_le : base ≤ s.2
  lt : s.2 < s.1.heap.length
  key_eq : s.1.key s.2 = e

/-- **A pass of `_siftup`** stops with the heap in order, or takes the node one level up.  Parents
before `base` are earlier than the node, so it does not come to the root. -/
theorem Rising.pass {e : ℤ} {s : Timer κ × ℕ} (h : Rising base t e s) (hbase : 0 < base)
    (hexact : RefExact indexed t) (hle : indexed ≤ base) (hguard : ∀ k < base, t.key k < e) :
    Loop.Sound (Rising base t e) Prod.snd
      (fun out => ∃ t', out = .ok t' ∧ Permutes base t t' ∧ Ordered t'.heap.length t'.key) s.2
      (siftupPass s) := by
  obtain ⟨t₁, i⟩ := s
  obtain ⟨hperm, hord, hi, hin, hkey⟩ := h
  dsimp only at hperm hord hi hin hkey
  have hi0 : 0 < i := hbase.trans_le hi
  have hji := parent_lt hi0
  by_cases hlt : t₁.key (HeapOrder.parent i) < t₁.key i
  · rw [siftupPass_exit hi0 hin hlt]
    exact ⟨t₁, rfl, hperm, hord.ordered fun _ => hlt.le⟩
  · rw [not_lt] at hlt
    have hj : base ≤ HeapOrder.parent i := by
      by_contra hj
      have := hguard _ (not_le.mp hj)
      rw [hkey, hperm.key_eq (not_le.mp hj)] at hlt
      omega
    obtain ⟨t₂, he, hmoved⟩ :=
      siftupPass_next (hexact.permutes (hperm.mono hle)) (hle.trans hj) hi0 hin hlt
    rw [he]
    refine ⟨⟨hperm.trans (hmoved.permutes hi hj), ?_, hj, ?_, ?_⟩, hji⟩
    · rw [hmoved.length_eq, hmoved.key_eq]
      exact hord.swap hi0 hin hlt
    · rw [hmoved.length_eq]
      exact hji.trans hin
    · rw [hmoved.key_eq, Function.comp_apply, Equiv.swap_apply_right, hkey]

/-- **`_siftup` orders a heap with one node out of place**, if every node before `base` is earlier
than that one. -/
theorem siftup_spec (hbase : 0 < base) (hexact : RefExact indexed t) (hle : indexed ≤ base)
    (hi : base ≤ i) (hin : i < t.heap.length) (hord : UpOrdered t.heap.length t.key i)
    (hguard : ∀ k < base, t.key k < t.key i) :
    ∃ t', t.siftup i = .ok t' ∧ Permutes base t t' ∧ Ordered t'.heap.length t'.key := by
  rw [siftup, assert_true hin, ok_bind]
  exact Loop.run_total (I := Rising base t (t.key i)) (v := Prod.snd)
    (fun s hs => hs.pass hbase hexact hle hguard) _ (t, i) ⟨.refl base t, hord, hi, hin, rfl⟩
    (by simp only; omega)

/-! ## `_siftdown` -/

/-- The child that a pass looks at is one of the two, and neither of them is before it. -/
theorem child_eq (h : i * 2 + 1 < t.heap.length) :
    ∃ j, t.child (i * 2 + 1) = .ok j ∧ j < t.heap.length ∧ (j = i * 2 + 1 ∨ j = i * 2 + 1 + 1) ∧
      t.key j ≤ t.key (i * 2 + 1) ∧
      (i * 2 + 1 + 1 < t.heap.length → t.key j ≤ t.key (i * 2 + 1 + 1)) := by
  rw [child]
  by_cases hright : i * 2 + 1 + 1 < t.heap.length
  · obtain ⟨a, ha⟩ := exists_node hright
    obtain ⟨b, hb⟩ := exists_node h
    rw [if_pos hright, nodeAt_eq ha, ok_bind, nodeAt_eq hb, ok_bind]
    by_cases hlt : a.before b = true
    · refine ⟨_, by rw [if_pos hlt, pure_eq_ok], hright, .inr rfl, ?_, fun _ => le_rfl⟩
      exact ((before_iff ha hb).mp hlt).le
    · refine ⟨_, by rw [if_neg hlt, pure_eq_ok], h, .inl rfl, le_rfl, fun _ => ?_⟩
      rwa [before_iff ha hb, not_lt] at hlt
  · exact ⟨_, by rw [if_neg hright, pure_eq_ok], h, .inl rfl, le_rfl, fun hc => absurd hc hright⟩

/-- The child that a pass looks at is the least of the children. -/
theorem child_spec (h : i * 2 + 1 < t.heap.length) :
    ∃ j, t.child (i * 2 + 1) = .ok j ∧ j < t.heap.length ∧ 0 < j ∧ HeapOrder.parent j = i ∧
      ∀ c, 0 < c → c < t.heap.length → HeapOrder.parent c = i → t.key j ≤ t.key c := by
  obtain ⟨j, he, hjn, hj, hleft, hright⟩ := child_eq h
  have hj0 : 0 < j := by omega
  refine ⟨j, he, hjn, hj0, (parent_eq_iff hj0).mpr (by omega), fun c hc hcn hci => ?_⟩
  obtain rfl | rfl : c = i * 2 + 1 ∨ c = i * 2 + 1 + 1 := by
    rw [parent_eq_iff hc] at hci
    omega
  · exact hleft
  · exact hright hcn

/-- **What a pass of `_siftdown` does**: it leaves where the node is before its children, or
exchanges it with the least of them. -/
theorem siftdownPass_cases (hexact : RefExact base t) (hi : base ≤ i) (hin : i < t.heap.length) :
    (siftdownPass (t, i) = .ok (.exit t) ∧
      ∀ c, 0 < c → c < t.heap.length → HeapOrder.parent c = i → t.key i ≤ t.key c) ∨
    ∃ j t', siftdownPass (t, i) = .ok (.next (t', j)) ∧ Moved (Equiv.swap i j) t t' ∧ 0 < j ∧
      j < t.heap.length ∧ HeapOrder.parent j = i ∧ t.key j ≤ t.key i ∧
      ∀ c, 0 < c → c < t.heap.length → HeapOrder.parent c = i → t.key j ≤ t.key c := by
  rw [siftdownPass]
  by_cases hleft : i * 2 + 1 < t.heap.length
  · obtain ⟨j, hchild, hjn, hj0, hji, hleast⟩ := child_spec hleft
    have hij : i < j := hji ▸ parent_lt hj0
    obtain ⟨a, ha⟩ := exists_node hin
    obtain ⟨b, hb⟩ := exists_node hjn
    simp only [if_pos hleft, hchild, nodeAt_eq ha, nodeAt_eq hb, ok_bind]
    by_cases hlt : a.before b = true
    · rw [if_pos hlt]
      rw [before_iff ha hb] at hlt
      exact .inl ⟨rfl, fun c hc hcn hci => hlt.le.trans (hleast c hc hcn hci)⟩
    · rw [if_neg hlt]
      rw [before_iff ha hb, not_lt] at hlt
      obtain ⟨t', he, hmoved⟩ := swap_moved hexact hi (hi.trans hij.le) hin hjn
      rw [he, ok_bind]
      exact .inr ⟨j, t', rfl, hmoved, hj0, hjn, hji, hlt, hleast⟩
  · rw [if_neg hleft]
    refine .inl ⟨rfl, fun c hc hcn hci => ?_⟩
    rw [parent_eq_iff hc] at hci
    omega

/-- Where a pass of `_siftdown` stands. -/
structure Sinking (base : ℕ) (t₀ : Timer κ) (s : Timer κ × ℕ) : Prop where
  permutes : Permutes base t₀ s.1
  ordered : DownOrdered s.1.heap.length s.1.key s.2
  base_le : base ≤ s.2
  lt : s.2 < s.1.heap.length

/-- **A pass of `_siftdown`** stops with the heap in order, or takes the node one level down. -/
theorem Sinking.pass {s : Timer κ × ℕ} (h : Sinking base t s) (hexact : RefExact base t) :
    Loop.Sound (Sinking base t) (fun s => s.1.heap.length - s.2)
      (fun out => ∃ t', out = .ok t' ∧ Permutes base t t' ∧ Ordered t'.heap.length t'.key)
      (s.1.heap.length - s.2) (siftdownPass s) := by
  obtain ⟨t₁, i⟩ := s
  obtain ⟨hperm, hord, hi, hin⟩ := h
  dsimp only at hperm hord hi hin ⊢
  obtain ⟨he, hstays⟩ | ⟨j, t₂, he, hmoved, hj0, hjn, hji, hle, hleast⟩ :=
    siftdownPass_cases (hexact.permutes hperm) hi hin
  · rw [he]
    exact ⟨t₁, rfl, hperm, hord.ordered hstays⟩
  · rw [he]
    have hij : i < j := hji ▸ parent_lt hj0
    have hj : base ≤ j := hi.trans hij.le
    refine ⟨⟨hperm.trans (hmoved.permutes hi hj), ?_, hj, ?_⟩, ?_⟩
    · rw [hmoved.length_eq, hmoved.key_eq]
      exact hord.swap hj0 hjn hji hleast hle
    · simp only [hmoved.length_eq, hjn]
    · simp only [hmoved.length_eq]
      omega

/-- **`_siftdown` orders a heap with one node out of place.** -/
theorem siftdown_spec (hexact : RefExact base t) (hi : base ≤ i) (hin : i < t.heap.length)
    (hord : DownOrdered t.heap.length t.key i) :
    ∃ t', t.siftdown i = .ok t' ∧ Permutes base t t' ∧ Ordered t'.heap.length t'.key := by
  rw [siftdown, assert_true hin, ok_bind]
  exact Loop.run_total (I := Sinking base t) (v := fun s => s.1.heap.length - s.2)
    (fun s hs => hs.pass hexact) _ (t, i) ⟨.refl base t, hord, hi, hin⟩ (by simp only; omega)

end Timer

end WebServer
