import WebServer.Timer.Update

/-!
# Timer/Removal — `doWork` on a heap that is indexed from its root on

`_delete` exchanges the node with the last one, cuts it off, and sifts what has come in its place up
and down.  That place may not exist any more, and what has come there must stay behind the root:
`doWork_iff`.
-/

namespace WebServer

namespace Timer

open HeapOrder

variable {κ : Type} {t t' : Timer κ} {id : ℤ} {i : ℕ} {node back : TimerNode κ}

/-! ## The node is cut off -/

/-- `_ref.erase(_heap.back().id)` and `_heap.pop_back()`. -/
theorem RefExact.cut (h : RefExact 0 t) (hback : t.heap[t.heap.length - 1]? = some back) :
    RefExact 0 ⟨t.heap.dropLast, Function.update t.ref back.id none⟩ := by
  have hlast := (h back.id (t.heap.length - 1)).mpr ⟨Nat.zero_le _, back, hback, rfl⟩
  intro id k
  simp only [List.getElem?_dropLast]
  obtain rfl | hid := eq_or_ne id back.id
  · rw [Function.update_self]
    refine iff_of_false (by simp) ?_
    rintro ⟨hk, node, hnode, hsame⟩
    split_ifs at hnode with hlt
    have href := (h back.id k).mpr ⟨hk, node, hnode, hsame⟩
    rw [hlast] at href
    exact hlt.ne (Option.some.inj href).symm
  · rw [Function.update_of_ne hid, h id k]
    refine and_congr_right fun _ => exists_congr fun node => and_congr_left fun hsame => ?_
    split_ifs with hlt
    · exact Iff.rfl
    · refine iff_of_false (fun hnode => ?_) (by simp)
      obtain ⟨hk, -⟩ := List.getElem?_eq_some_iff.mp hnode
      obtain rfl : k = t.heap.length - 1 := by omega
      rw [hback] at hnode
      exact hid (by rw [← hsame, Option.some.inj hnode])

/-- **What `_delete` sifts**: the heap without the node, with the last node in its place. -/
theorem delete_eq (hexact : RefExact 0 t) (hnode : t.heap[i]? = some node) :
    ∃ t₁ : Timer κ, t.delete i = (t₁.siftup i >>= fun t => t.siftdown i) ∧
      t₁.heap.length + 1 = t.heap.length ∧ RefExact 0 t₁ ∧ (node :: t₁.heap).Perm t.heap ∧
      (∀ k < t₁.heap.length, k ≠ i → t₁.key k = t.key k) ∧
      (i < t₁.heap.length → t₁.key i = t.key t₁.heap.length) := by
  obtain ⟨hin, -⟩ := List.getElem?_eq_some_iff.mp hnode
  obtain ⟨t', he, hmoved⟩ := swap_moved hexact (Nat.zero_le i) (Nat.zero_le (t.heap.length - 1))
    hin (by omega)
  have hperm : Permutes 0 t t' := hmoved.permutes (Nat.zero_le _) (Nat.zero_le _)
  have hback : t'.heap[t'.heap.length - 1]? = some node := by
    rw [hmoved.length_eq, hmoved.heap_eq, Equiv.swap_apply_right, hnode]
  have hlen : t'.heap.dropLast.length = t.heap.length - 1 := by
    rw [List.length_dropLast, hmoved.length_eq]
  have hkey : ∀ k < t.heap.length - 1,
      (⟨t'.heap.dropLast, Function.update t'.ref node.id none⟩ : Timer κ).key k
        = t.key (Equiv.swap i (t.heap.length - 1) k) := by
    intro k hk
    have hcut : t'.heap.dropLast[k]? = t.heap[Equiv.swap i (t.heap.length - 1) k]? := by
      rw [List.getElem?_dropLast, hmoved.length_eq, if_pos hk, hmoved.heap_eq]
    rw [key, hcut, key]
  refine ⟨⟨t'.heap.dropLast, Function.update t'.ref node.id none⟩, ?_, ?_,
    (hexact.permutes hperm).cut hback, ?_, fun k hk hki => ?_, fun hi => ?_⟩
  · rw [delete, assert_true hin, ok_bind, he, ok_bind, nodeAt_eq hback, ok_bind]
  · dsimp only
    omega
  · refine (List.perm_append_singleton node _).symm.trans (.trans (.of_eq ?_) (hperm.perm hexact))
    obtain ⟨hlt, hget⟩ := List.getElem?_eq_some_iff.mp hback
    rw [← hget, ← List.getLast_eq_getElem (List.length_pos_iff.mp (by omega)),
      List.dropLast_append_getLast]
  · rw [hkey k (hlen ▸ hk), Equiv.swap_apply_of_ne_of_ne hki (hlen ▸ hk).ne]
  · rw [hkey i (hlen ▸ hi), Equiv.swap_apply_left, ← hlen]

/-! ## What has come in its place is sifted -/

/-- **A node behind its parent climbs over equal deadlines only**, so `_siftup` leaves every
deadline where it is. -/
theorem siftup_keeps (hexact : RefExact 0 t) (hi : 0 < i) (hin : i < t.heap.length)
    (hpairs : ∀ c, 0 < c → c ≤ i → t.key (HeapOrder.parent c) ≤ t.key c)
    (hroot : t.key 0 < t.key i) :
    ∃ t', t.siftup i = .ok t' ∧ Permutes 0 t t' ∧ t'.key = t.key := by
  rw [siftup, assert_true hin, ok_bind]
  refine Loop.run_total
    (I := fun s => Permutes 0 t s.1 ∧ s.1.key = t.key ∧ 0 < s.2 ∧ s.2 ≤ i ∧ t.key s.2 = t.key i)
    (v := Prod.snd)
    (Q := fun out => ∃ t', out = .ok t' ∧ Permutes 0 t t' ∧ t'.key = t.key) ?_ _ (t, i)
    ⟨.refl 0 t, rfl, hi, le_rfl, rfl⟩ (by simp only; omega)
  rintro ⟨t₁, i₁⟩ ⟨hperm, hkeys, hpos, hle, hkey⟩
  dsimp only at hperm hkeys hpos hle hkey ⊢
  have hlt := parent_lt hpos
  have hin₁ : i₁ < t₁.heap.length := by
    rw [hperm.length_eq]
    exact hle.trans_lt hin
  by_cases hbefore : t₁.key (HeapOrder.parent i₁) < t₁.key i₁
  · rw [siftupPass_exit hpos hin₁ hbefore]
    exact ⟨t₁, rfl, hperm, hkeys⟩
  · rw [not_lt] at hbefore
    obtain ⟨t₂, he, hmoved⟩ :=
      siftupPass_next (hexact.permutes hperm) (Nat.zero_le _) hpos hin₁ hbefore
    have hsame : t.key (HeapOrder.parent i₁) = t.key i₁ :=
      (hpairs i₁ hpos hle).antisymm (hkeys ▸ hbefore)
    rw [he]
    refine ⟨⟨hperm.trans (hmoved.permutes (Nat.zero_le _) (Nat.zero_le _)), ?_, ?_,
      hlt.le.trans hle, hsame.trans hkey⟩, hlt⟩
    · rw [hmoved.key_eq, hkeys, Equiv.comp_swap_eq_update, ← hsame, Function.update_eq_self, hsame,
        Function.update_eq_self]
    · -- The root is before the node.
      refine Nat.pos_of_ne_zero fun hzero => hroot.ne ?_
      rw [← hkey, ← hsame, ← hzero]

/-- **One deadline of an ordered heap is changed, and the node is sifted up and then down.** -/
theorem resift (hexact : RefExact 0 t) (hi : 0 < i) (hin : i < t.heap.length) {key : ℕ → ℤ}
    (hord : Ordered t.heap.length key) (hkey : ∀ k < t.heap.length, k ≠ i → t.key k = key k)
    (hroot : key 0 < t.key i) :
    ∃ t', (t.siftup i >>= fun t => t.siftdown i) = .ok t' ∧ Permutes 0 t t' ∧
      Ordered t'.heap.length t'.key := by
  have hparent : t.key (HeapOrder.parent i) = key (HeapOrder.parent i) :=
    hkey _ ((parent_lt hi).trans hin) (parent_lt hi).ne
  have hroot' : t.key 0 < t.key i := by
    rwa [hkey 0 (hi.trans hin) hi.ne]
  obtain ⟨t₁, hup, hperm, hdown⟩ : ∃ t₁, t.siftup i = .ok t₁ ∧ Permutes 0 t t₁ ∧
      DownOrdered t₁.heap.length t₁.key i := by
    obtain hle | hlt := le_or_gt (key (HeapOrder.parent i)) (t.key i)
    · have hdown := hord.replace_down hkey hin fun _ => hle
      have hpairs : ∀ c, 0 < c → c ≤ i → t.key (HeapOrder.parent c) ≤ t.key c := fun c hc hci =>
        hdown.pairs c hc (hci.trans_lt hin) ((parent_lt hc).trans_le hci).ne
      obtain ⟨t₁, hup, hperm, hkeys⟩ := siftup_keeps hexact hi hin hpairs hroot'
      exact ⟨t₁, hup, hperm, by rwa [hperm.length_eq, hkeys]⟩
    · have hguard : ∀ k < 1, t.key k < t.key i := fun k hk => by
        obtain rfl : k = 0 := by omega
        exact hroot'
      obtain ⟨t₁, hup, hperm, hord₁⟩ := siftup_spec one_pos hexact zero_le_one hi hin
        (hord.replace_up hkey hin hi hlt.le) hguard
      exact ⟨t₁, hup, hperm.mono zero_le_one, hord₁.down (hperm.length_eq ▸ hin)⟩
  obtain ⟨t', he, hperm', hord'⟩ := siftdown_spec (hexact.permutes hperm) (Nat.zero_le i)
    (hperm.length_eq ▸ hin) hdown
  exact ⟨t', by rw [hup, ok_bind, he], hperm.trans hperm', hord'⟩

/-! ## `doWork` -/

/-- **What `doWork` has to do with a registered node**: its callback is run, and then the heap, in
order and exactly indexed, holds the others. -/
def Fires (t : Timer κ) (node : TimerNode κ) (result : Exec (Option κ × Timer κ)) : Prop :=
  ∃ cb t', node.tcb = some cb ∧ result = .ok (some cb, t') ∧ Ordered t'.heap.length t'.key ∧
    RefExact 0 t' ∧ (node :: t'.heap).Perm t.heap

theorem doWork_registered (href : t.ref id = some i) (hnode : t.heap[i]? = some node) :
    t.doWork id = (do
      let cb ← call node.tcb
      let t ← t.delete i
      return (some cb, t)) := by
  simp only [doWork, href, nodeAt_eq hnode, ok_bind]

/-- A deletion that returns was neither at the root nor at the end, and what has come in the place
is behind the root. -/
theorem delete_inner (hord : Ordered t.heap.length t.key) (hexact : RefExact 0 t)
    (hmax : t.heap.length ≤ maxSize) (hnode : t.heap[i]? = some node) (h : t.delete i = .ok t') :
    0 < i ∧ i + 1 < t.heap.length ∧ t.key 0 < t.key (t.heap.length - 1) := by
  have hi : 0 < i := Nat.pos_of_ne_zero fun hzero => delete_zero_ne_ok hmax (hzero ▸ h)
  obtain ⟨t₁, hdelete, hlen, hexact₁, -, hkeys, hkey⟩ := delete_eq hexact hnode
  rw [hdelete] at h
  obtain ⟨t₂, hup, -⟩ := bind_eq_ok.mp h
  have hin := (siftup_length hup).1
  refine ⟨hi, by omega, not_le.mp fun hle => ?_⟩
  have hmin : ∀ k < t₁.heap.length, t₁.key i ≤ t₁.key k := by
    intro k hk
    obtain rfl | hki := eq_or_ne k i
    · exact le_rfl
    · rw [hkey hin, hkeys k hk hki, ← Nat.sub_eq_of_eq_add hlen.symm]
      exact hle.trans (hord.root_le (by omega))
  rw [siftup_fault hexact₁ hin (by omega) hmin] at hup
  cases hup

/-- **`doWork` fires an id if and only if it has a callback and is neither at the root nor at the
end of the heap, and the last node is due after the root.**  An unknown id changes nothing. -/
theorem doWork_iff (hord : Ordered t.heap.length t.key) (hexact : RefExact 0 t)
    (hmax : t.heap.length ≤ maxSize) (id : ℤ) :
    (t.ref id = none → t.doWork id = .ok (none, t)) ∧
    ∀ i node, t.ref id = some i → t.heap[i]? = some node →
      (Fires t node (t.doWork id) ↔ node.tcb.isSome ∧ 0 < i ∧ i + 1 < t.heap.length ∧
        t.key 0 < t.key (t.heap.length - 1)) := by
  refine ⟨fun href => ?_, fun i node href hnode => ?_⟩
  · simp only [doWork, href, pure_eq_ok]
  rw [doWork_registered href hnode]
  constructor
  · rintro ⟨cb, t', htcb, he, -⟩
    obtain ⟨cb', -, he⟩ := bind_eq_ok.mp he
    obtain ⟨t₁, hdelete, -⟩ := bind_eq_ok.mp he
    rw [htcb]
    exact ⟨rfl, delete_inner hord hexact hmax hnode hdelete⟩
  · rintro ⟨hsome, hi, hlt, hroot⟩
    obtain ⟨cb, htcb⟩ := Option.isSome_iff_exists.mp hsome
    obtain ⟨t₁, hdelete, hlen, hexact₁, hperm, hkeys, hkey⟩ := delete_eq hexact hnode
    have hin : i < t₁.heap.length := by omega
    rw [← Nat.eq_sub_of_add_eq hlen, ← hkey hin] at hroot
    obtain ⟨t', he, hperm', hord'⟩ :=
      resift hexact₁ hi hin (hord.mono (by omega)) hkeys hroot
    refine ⟨cb, t', htcb, ?_, hord', hexact₁.permutes hperm',
      ((hperm'.perm hexact₁).cons node).trans hperm⟩
    rw [htcb, call, ok_bind, hdelete, he]
    rfl

/-- The ids 0, 1 and 2 with their callbacks, each due after the one before it. -/
def three : Timer ℕ :=
  ⟨[⟨0, 10, some 0⟩, ⟨1, 20, some 1⟩, ⟨2, 30, some 2⟩], Function.update
    (Function.update (Function.update (fun _ => none) 0 (some 0)) 1 (some 1)) 2 (some 2)⟩

theorem three_exact : RefExact 0 three := by
  have h₁ : Holds 0 _ (⟨[⟨0, 10, some 0⟩], Function.update (fun _ => none) 0 (some 0)⟩ : Timer ℕ) :=
    Holds.nil.push le_rfl rfl 10 (some 0)
  have h₂ : Holds 0 _ (⟨[⟨0, 10, some 0⟩, ⟨1, 20, some 1⟩],
      Function.update (Function.update (fun _ => none) 0 (some 0)) 1 (some 1)⟩ : Timer ℕ) :=
    h₁.push (Nat.zero_le _) rfl 20 (some 1)
  have h₃ : Holds 0 _ three := h₂.push (Nat.zero_le _) rfl 30 (some 2)
  exact h₃.refExact

theorem three_ordered : Ordered three.heap.length three.key := by
  have hall : ∀ c < 3, 0 < c → three.key (HeapOrder.parent c) ≤ three.key c := by decide
  exact fun c hc hcn => hall c hcn hc

/-- The one in the middle. -/
theorem doWork_iff_middle : Fires three ⟨1, 20, some 1⟩ (three.doWork 1) :=
  ((doWork_iff three_ordered three_exact (by decide) 1).2 1 ⟨1, 20, some 1⟩ rfl rfl).mpr
    ⟨rfl, by decide, by decide, by decide⟩

/-- **The id at the end, and the id at the root.** -/
theorem not_fires_last : Ordered three.heap.length three.key ∧ RefExact 0 three ∧
    three.doWork 2 = .error (.assertion "i >= 0 and i < _heap.size()") ∧
    three.doWork 0 = .error .outOfBounds ∧
    ¬ Fires three ⟨2, 30, some 2⟩ (three.doWork 2) := by
  have hout : three.doWork 2 = .error (.assertion "i >= 0 and i < _heap.size()") := rfl
  refine ⟨three_ordered, three_exact, hout, rfl, ?_⟩
  rintro ⟨cb, t', -, he, -⟩
  rw [hout] at he
  cases he

end Timer

end WebServer
