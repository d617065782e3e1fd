import WebServer.Timer.Expiry

/-!
# Timer/Update — `add` and `adjustExpire` on a heap that is indexed from its root on

Any heap in order, with an index that is exact for all of it, is a start here; the constructor's
blank nodes need not be there.  An earlier deadline is not taken up and `add` does not sift a
registered id at all (`rearms_iff`); a new id must stay behind the root, since `_siftup` has no case
for it (`inserts_iff`).
-/

namespace WebServer

namespace Timer

open HeapOrder

variable {κ : Type} {t t' : Timer κ} {id e now timeout : ℤ} {cb tcb : Option κ} {i : ℕ}
  {reg : Registry κ} {node : TimerNode κ}

/-! ## The registry of a timer -/

/-- What is registered for each id: its deadline and its callback. -/
def registry (t : Timer κ) : Registry κ := fun id =>
  (t.ref id).bind fun k => t.heap[k]?.map fun node => (node.expire, node.tcb)

/-- An exact index makes the heap hold what is registered. -/
theorem RefExact.holds (h : RefExact 0 t) : Holds 0 t.registry t where
  refExact := h
  nodes id e cb := by
    constructor
    · intro hreg
      obtain ⟨k, href, hpair⟩ := Option.bind_eq_some_iff.mp hreg
      obtain ⟨-, node, hnode, rfl⟩ := (h id k).mp href
      rw [hnode, Option.map_some] at hpair
      obtain ⟨rfl, rfl⟩ := Prod.mk.inj (Option.some.inj hpair)
      exact ⟨k, Nat.zero_le k, hnode⟩
    · rintro ⟨k, hk, hnode⟩
      have href := (h id k).mpr ⟨hk, _, hnode, rfl⟩
      rw [registry, href, Option.bind_some, hnode, Option.map_some]

/-- …and nothing else. -/
theorem Holds.registry_eq (h : Holds 0 reg t) : t.registry = reg := by
  funext id
  ext ⟨e, cb⟩
  exact (h.refExact.holds.nodes id e cb).trans (h.nodes id e cb).symm

/-- An empty heap holds nothing. -/
theorem Holds.nil : Holds 0 (fun _ => none) (⟨[], fun _ => none⟩ : Timer κ) :=
  ⟨fun id k => by simp, fun id e cb => by simp⟩

/-- The node of a registered id. -/
theorem RefExact.node_eq (h : RefExact 0 t) (href : t.ref id = some i) :
    ∃ e cb, t.heap[i]? = some ⟨id, e, cb⟩ := by
  obtain ⟨-, ⟨_, e, cb⟩, hnode, rfl⟩ := (h id i).mp href
  exact ⟨e, cb, hnode⟩

/-! ## A deadline is set anew -/

/-- **What a new deadline has to leave**: the heap in order, the index exact, and nothing else
changed but for the callback of the id. -/
def Rearms (t : Timer κ) (id e : ℤ) (result : Exec (Timer κ)) : Prop :=
  ∃ t', result = .ok t' ∧ Ordered t'.heap.length t'.key ∧ RefExact 0 t' ∧
    (t'.registry id).map Prod.fst = some e ∧ ∀ other ≠ id, t'.registry other = t.registry other

/-- All but the order is kept by a node that is put in the place of its id, wherever it moves. -/
theorem rearms_ok_iff (h : Holds 0 (Function.update t.registry id (some (e, cb))) t') :
    Rearms t id e (.ok t') ↔ Ordered t'.heap.length t'.key := by
  constructor
  · rintro ⟨t₁, hsame, hord, -⟩
    obtain rfl := Except.ok.inj hsame
    exact hord
  · intro hord
    refine ⟨t', rfl, hord, h.refExact, ?_, fun other hother => ?_⟩
    · rw [h.registry_eq, Function.update_self, Option.map_some]
    · rw [h.registry_eq, Function.update_of_ne hother]

/-- **A node before its children stays.** -/
theorem siftdown_stays (hexact : RefExact 0 t) (hin : i < t.heap.length)
    (hbelow : ∀ c, 0 < c → c < t.heap.length → HeapOrder.parent c = i → t.key i < t.key c) :
    t.siftdown i = .ok t := by
  rw [siftdown, assert_true hin, ok_bind]
  obtain ⟨he, -⟩ | ⟨j, t', -, -, hj0, hjn, hji, hle, -⟩ :=
    siftdownPass_cases hexact (Nat.zero_le i) hin
  · exact Loop.run_exit he _
  · exact absurd hle (not_le.mpr (hbelow j hj0 hjn hji))

/-- **A deadline that is set in place** has to be between the parent's and the children's. -/
theorem rearms_set_iff (hord : Ordered t.heap.length t.key) (hexact : RefExact 0 t)
    (href : t.ref id = some i) (hnode : t.heap[i]? = some node) (e : ℤ) (cb : Option κ) :
    Rearms t id e (.ok { t with heap := t.heap.set i ⟨id, e, cb⟩ }) ↔
      (0 < i → t.key (HeapOrder.parent i) ≤ e) ∧
      ∀ c, 0 < c → c < t.heap.length → HeapOrder.parent c = i → e ≤ t.key c := by
  obtain ⟨hin, -⟩ := List.getElem?_eq_some_iff.mp hnode
  rw [rearms_ok_iff (hexact.holds.set href e cb), key_set hin, List.length_set,
    hord.update_iff hin]

/-- `add` moves nothing. -/
theorem add_rearms_iff (hord : Ordered t.heap.length t.key) (hexact : RefExact 0 t)
    (href : t.ref id = some i) (now timeout : ℤ) (tcb : Option κ) :
    Rearms t id (deadline now timeout) (t.add id now timeout tcb) ↔ 0 ≤ id ∧
      (0 < i → t.key (HeapOrder.parent i) ≤ deadline now timeout) ∧
      ∀ c, 0 < c → c < t.heap.length → HeapOrder.parent c = i → deadline now timeout ≤ t.key c := by
  obtain ⟨e₀, cb, hnode⟩ := hexact.node_eq href
  constructor
  · intro hrearms
    have hid : 0 ≤ id := by
      obtain ⟨t', he, -⟩ := hrearms
      obtain ⟨u, hassert, -⟩ := bind_eq_ok.mp he
      exact assert_eq_ok hassert
    rw [add_registered href hnode rfl hid] at hrearms
    exact ⟨hid, (rearms_set_iff hord hexact href hnode _ tcb).mp hrearms⟩
  · rintro ⟨hid, hbetween⟩
    rw [add_registered href hnode rfl hid]
    exact (rearms_set_iff hord hexact href hnode _ tcb).mpr hbetween

/-- `adjustExpire` moves a node down only. -/
theorem adjustExpire_rearms_iff (hord : Ordered t.heap.length t.key) (hexact : RefExact 0 t)
    (href : t.ref id = some i) (now timeout : ℤ) :
    Rearms t id (deadline now timeout) (t.adjustExpire id now timeout) ↔
      (0 < i → t.key (HeapOrder.parent i) ≤ deadline now timeout) := by
  obtain ⟨e₀, cb, hnode⟩ := hexact.node_eq href
  obtain ⟨hin, -⟩ := List.getElem?_eq_some_iff.mp hnode
  have hset := hexact.holds.set href (deadline now timeout) cb
  have hlength : (t.heap.set i ⟨id, deadline now timeout, cb⟩).length = t.heap.length :=
    List.length_set
  rw [adjustExpire_registered href hnode]
  constructor
  · intro hrearms hi
    by_contra hlt
    rw [siftdown_stays hset.refExact (by rwa [hlength]),
      rearms_set_iff hord hexact href hnode] at hrearms
    · exact hlt (hrearms.1 hi)
    · -- It is before its old parent, so before its children as well.
      intro c hc hcn hpc
      have hic : i < c := hpc ▸ parent_lt hc
      rw [hlength] at hcn
      rw [key_set hin, Function.update_self, Function.update_of_ne hic.ne']
      exact (not_le.mp hlt).trans_le ((hord i hi hin).trans (hpc ▸ hord c hc hcn))
  · intro habove
    have hdown : DownOrdered (t.heap.set i ⟨id, deadline now timeout, cb⟩).length
        ({ t with heap := t.heap.set i ⟨id, deadline now timeout, cb⟩ } : Timer κ).key i := by
      rw [key_set hin, hlength]
      refine hord.replace_down (fun k _ hk => Function.update_of_ne hk _ _) hin ?_
      rwa [Function.update_self]
    obtain ⟨t', he, hperm, hord'⟩ :=
      siftdown_spec hset.refExact (Nat.zero_le i) (by rwa [hlength]) hdown
    rw [he]
    exact (rearms_ok_iff (hset.permutes hperm)).mpr hord'

/-- **`add` re-arms where the deadline stays between the parent's and the children's**, since it
moves nothing; **`adjustExpire` where it stays behind the parent's**, since it only sifts down. -/
theorem rearms_iff (hord : Ordered t.heap.length t.key) (hexact : RefExact 0 t)
    (href : t.ref id = some i) (now timeout : ℤ) (tcb : Option κ) :
    (Rearms t id (deadline now timeout) (t.add id now timeout tcb) ↔ 0 ≤ id ∧
      (0 < i → t.key (HeapOrder.parent i) ≤ deadline now timeout) ∧
      ∀ c, 0 < c → c < t.heap.length → HeapOrder.parent c = i → deadline now timeout ≤ t.key c) ∧
    (Rearms t id (deadline now timeout) (t.adjustExpire id now timeout) ↔
      (0 < i → t.key (HeapOrder.parent i) ≤ deadline now timeout)) :=
  ⟨add_rearms_iff hord hexact href now timeout tcb,
    adjustExpire_rearms_iff hord hexact href now timeout⟩

/-- The ids 0 and 1 with their deadlines, 0 at the root. -/
def two (a b : ℤ) : Timer ℕ :=
  ⟨[⟨0, a, none⟩, ⟨1, b, none⟩],
    Function.update (Function.update (fun _ => none) 0 (some 0)) 1 (some 1)⟩

theorem two_exact (a b : ℤ) : RefExact 0 (two a b) := by
  have h₁ : Holds 0 (Function.update (fun _ => none) 0 (some (a, none)))
      (⟨[⟨0, a, none⟩], Function.update (fun _ => none) 0 (some 0)⟩ : Timer ℕ) :=
    Holds.nil.push le_rfl rfl a none
  have h₂ : Holds 0 _ (two a b) := h₁.push (Nat.zero_le _) rfl b none
  exact h₂.refExact

theorem two_ordered {a b : ℤ} (hab : a ≤ b) : Ordered (two a b).heap.length (two a b).key := by
  intro c hc hcn
  obtain rfl : c = 1 := by
    have : c < 2 := hcn
    omega
  exact hab

/-- The leaf is set a later deadline. -/
theorem rearms_iff_leaf : Rearms (two 10 20) 1 (deadline 15 0) ((two 10 20).add 1 15 0 none) ∧
    Rearms (two 10 20) 1 (deadline 15 0) ((two 10 20).adjustExpire 1 15 0) := by
  have href : (two 10 20).ref 1 = some 1 := rfl
  have hord : Ordered (two 10 20).heap.length (two 10 20).key := two_ordered (by decide)
  have h := rearms_iff hord (two_exact 10 20) href 15 0 none
  refine ⟨h.1.mpr ⟨by decide, fun _ => by decide, fun c hc hcn hpc => ?_⟩,
    h.2.mpr fun _ => by decide⟩
  have hlt : c < 2 := hcn
  have hchild := (parent_eq_iff hc).mp hpc
  omega

/-- **The root is set a deadline after its child's**, by `add`, **and the leaf one before its
parent's**, by `adjustExpire`: both stay where they are. -/
theorem not_rearms_two : Ordered (two 10 20).heap.length (two 10 20).key ∧
    RefExact 0 (two 10 20) ∧
    (∃ t', (two 10 20).add 0 30 0 none = .ok t' ∧ ¬ Ordered t'.heap.length t'.key) ∧
    (∃ t', (two 10 20).adjustExpire 1 5 0 = .ok t' ∧ ¬ Ordered t'.heap.length t'.key) ∧
    ¬ (Rearms (two 10 20) 0 (deadline 30 0) ((two 10 20).add 0 30 0 none) ∧
      Rearms (two 10 20) 1 (deadline 5 0) ((two 10 20).adjustExpire 1 5 0)) := by
  have hadd : (two 10 20).add 0 30 0 none = .ok (two 30 20) := rfl
  have hadjust : (two 10 20).adjustExpire 1 5 0 = .ok (two 10 5) := rfl
  have hout : ∀ {a b : ℤ}, b < a → ¬ Ordered (two a b).heap.length (two a b).key :=
    fun hba hord => absurd (hord 1 one_pos one_lt_two) (not_le.mpr hba)
  refine ⟨two_ordered (by decide), two_exact 10 20, ⟨_, hadd, hout (by decide)⟩,
    ⟨_, hadjust, hout (by decide)⟩, ?_⟩
  rintro ⟨⟨t', he, hord, -⟩, -⟩
  rw [hadd] at he
  exact hout (by decide) (Except.ok.inj he ▸ hord)

/-! ## A new id -/

/-- **What a new id has to leave**: the heap in order, the index exact, and the nodes that were
there with the new one. -/
def Inserts (t : Timer κ) (node : TimerNode κ) (result : Exec (Timer κ)) : Prop :=
  ∃ t', result = .ok t' ∧ Ordered t'.heap.length t'.key ∧ RefExact 0 t' ∧
    t'.heap.Perm (t.heap ++ [node])

/-- **A node that no other is before climbs to the root**, and there `_siftup` faults. -/
theorem siftup_fault (hexact : RefExact 0 t) (hin : i < t.heap.length)
    (hmax : t.heap.length ≤ maxSize) (hmin : ∀ k < t.heap.length, t.key i ≤ t.key k) :
    t.siftup i = .error .outOfBounds := by
  rw [siftup, assert_true hin, ok_bind]
  refine Loop.run_total
    (I := fun s => Permutes 0 t s.1 ∧ s.2 < s.1.heap.length ∧ s.1.key s.2 = t.key i)
    (v := Prod.snd) (Q := fun out => out = Except.error Fault.outOfBounds) ?_ _ (t, i)
    ⟨.refl 0 t, hin, rfl⟩ (by simp only; omega)
  rintro ⟨t₁, i₁⟩ ⟨hperm, hin₁, hkey⟩
  dsimp only at hperm hin₁ hkey ⊢
  obtain rfl | hpos := Nat.eq_zero_or_pos i₁
  · rw [siftupPass_zero (hperm.length_eq ▸ hmax)]
    rfl
  · have hlt := parent_lt hpos
    have hle : t₁.key i₁ ≤ t₁.key (HeapOrder.parent i₁) :=
      hkey.trans_le (hperm.le_key hmin _ (hlt.trans hin₁))
    obtain ⟨t₂, he, hmoved⟩ :=
      siftupPass_next (hexact.permutes hperm) (Nat.zero_le _) hpos hin₁ hle
    rw [he]
    refine ⟨⟨hperm.trans (hmoved.permutes (Nat.zero_le _) (Nat.zero_le _)), ?_, ?_⟩, hlt⟩
    · rw [hmoved.length_eq]
      exact hlt.trans hin₁
    · rw [hmoved.key_eq, Function.comp_apply, Equiv.swap_apply_right, hkey]

/-- A new node that the root is not strictly before is not after any other. -/
theorem push_le {ref : ℤ → Option ℕ} (hord : Ordered t.heap.length t.key)
    (hroot : ¬ (t.heap ≠ [] ∧ t.key 0 < node.expire)) :
    ∀ k < (t.heap ++ [node]).length,
      node.expire ≤ (⟨t.heap ++ [node], ref⟩ : Timer κ).key k := by
  obtain ⟨hkey, hnew⟩ := key_push (t := t) node ref
  intro k hk
  rw [List.length_append, List.length_singleton] at hk
  obtain hlt | rfl := Nat.lt_succ_iff_lt_or_eq.mp hk
  · have hle : node.expire ≤ t.key 0 := by
      by_contra hlater
      exact hroot ⟨List.length_pos_iff.mp (by omega), not_le.mp hlater⟩
    rw [hkey k hlt]
    exact hle.trans (hord.root_le hlt)
  · exact hnew.ge

/-- **`add` inserts a new id if and only if there is a root, and it is before the new node.** -/
theorem inserts_iff (hord : Ordered t.heap.length t.key) (hexact : RefExact 0 t)
    (href : t.ref id = none) (hid : 0 ≤ id) (hmax : t.heap.length < maxSize) (now timeout : ℤ)
    (tcb : Option κ) :
    Inserts t ⟨id, deadline now timeout, tcb⟩ (t.add id now timeout tcb) ↔
      t.heap ≠ [] ∧ t.key 0 < deadline now timeout := by
  have hreg : t.registry id = none := by rw [registry, href, Option.bind_none]
  have hholds := hexact.holds.push (Nat.zero_le _) hreg (deadline now timeout) tcb
  obtain ⟨hkey, hnew⟩ := key_push (t := t) ⟨id, deadline now timeout, tcb⟩
    (Function.update t.ref id (some t.heap.length))
  rw [add_new href hid]
  generalize ht₁ : (⟨t.heap ++ [⟨id, deadline now timeout, tcb⟩],
    Function.update t.ref id (some t.heap.length)⟩ : Timer κ) = t₁ at hholds hkey hnew
  have hheap : t₁.heap = t.heap ++ [⟨id, deadline now timeout, tcb⟩] := by rw [← ht₁]
  have hsize : t₁.heap.length = t.heap.length + 1 := by
    rw [hheap, List.length_append, List.length_singleton]
  rw [Inserts, ← hheap]
  dsimp only at hnew
  constructor
  · rintro ⟨t', he, -⟩
    by_contra hnot
    have hmin : ∀ k < t₁.heap.length, t₁.key t.heap.length ≤ t₁.key k := by
      rw [hnew, ← ht₁]
      exact push_le hord hnot
    rw [siftup_fault hholds.refExact (by omega) (by omega) hmin] at he
    cases he
  · rintro ⟨hne, hlt⟩
    have hpos := List.length_pos_iff.mpr hne
    have hup : UpOrdered t₁.heap.length t₁.key t.heap.length := by
      rw [hsize]
      exact hord.push hkey
    obtain ⟨t', he, hperm, hord'⟩ := siftup_spec one_pos hholds.refExact zero_le_one hpos (by omega)
      hup fun k hk => by
        obtain rfl : k = 0 := by omega
        rwa [hkey 0 hpos, hnew]
    exact ⟨t', he, hord', hholds.refExact.permutes (hperm.mono zero_le_one),
      hperm.perm hholds.refExact⟩

/-- A third id, behind the root. -/
theorem inserts_iff_third :
    Inserts (two 10 20) ⟨2, deadline 15 0, none⟩ ((two 10 20).add 2 15 0 none) :=
  (inserts_iff (two_ordered (by decide)) (two_exact 10 20) rfl (by decide) (by decide) 15 0
    none).mpr ⟨List.cons_ne_nil _ _, by decide⟩

/-- **A new id that is due before all others**, or is the first. -/
theorem not_inserts_earliest : Ordered (two 10 20).heap.length (two 10 20).key ∧
    RefExact 0 (two 10 20) ∧ (two 10 20).ref 2 = none ∧
    (two 10 20).add 2 5 0 none = .error .outOfBounds ∧
    ¬ Inserts (two 10 20) ⟨2, deadline 5 0, none⟩ ((two 10 20).add 2 5 0 none) ∧
    (⟨[], fun _ => none⟩ : Timer ℕ).add 2 5 0 none = .error .outOfBounds := by
  have hout : (two 10 20).add 2 5 0 none = .error .outOfBounds := rfl
  refine ⟨two_ordered (by decide), two_exact 10 20, rfl, hout, ?_, rfl⟩
  rintro ⟨t', he, -⟩
  rw [hout] at he
  cases he

end Timer

end WebServer
