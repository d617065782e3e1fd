import WebServer.Server.Steps
import WebServer.Server.Users

/-!
# Server/UserCount — `user_count` counts the open slots

`user_count` goes up when a closed slot opens and down when an open one closes, so it is their
number; and the slot of a client on its way in is closed until `init`, as nobody else opens slots.
-/

namespace WebServer

namespace Server

namespace Users

variable {s s' : State} {users : ℤ → Option HttpConn} {fd slot : ℤ} {c : HttpConn}

theorem opened_update_open (hopen : c.isClosed = false) :
    opened (Function.update users slot (some c)) = insert slot (opened users) := by
  ext j
  rw [Set.mem_insert_iff, opened, opened]
  obtain rfl | hj := eq_or_ne j slot
  · simp [hopen]
  · simp [hj]

theorem opened_update_closed (hclosed : c.isClosed = true) :
    opened (Function.update users slot (some c)) = opened users \ {slot} := by
  ext j
  rw [Set.mem_sdiff, Set.mem_singleton_iff, opened, opened]
  obtain rfl | hj := eq_or_ne j slot
  · simp [hclosed]
  · simp [hj]

/-- The calls of a slot that has been opened and closed `n` times. -/
def lives (slot : ℤ) (n : ℕ) : List Call := (List.replicate n [.init slot, .close slot]).flatten

theorem lives_succ (slot : ℤ) (n : ℕ) :
    lives slot (n + 1) = lives slot n ++ [.init slot, .close slot] := by
  rw [lives, List.replicate_succ', List.flatten_append, List.flatten_singleton, ← lives]

/-- The calls of a slot follow its flag: it is closed as often as it was opened, or once less. -/
def Follows (calls : List Call) (slot : ℤ) (isOpen : Prop) : Prop :=
  ∃ n, ¬ isOpen ∧ calls = lives slot n ∨ isOpen ∧ calls = lives slot n ++ [.init slot]

/-- **The invariant.** -/
structure Sound (s : State) : Prop where
  /-- An open slot has the descriptor it is found by. -/
  own : ∀ slot c, s.users slot = some c → c.isClosed = false → c.fd = slot
  finite : s.opened.Finite
  count : s.userCount = s.opened.ncard
  bound : s.userCount ≤ MAX_FD
  admitted : ∀ fd, s.admitted = some fd → fd ∉ s.opened ∧ s.userCount < MAX_FD
  follows : ∀ slot, Follows (s.calls slot) slot (slot ∈ s.opened)

/-! ## What a step does -/

/-- `init` opens the connection, on its socket. -/
theorem of_init {readAbi writeAbi : Abi Members} {userCount n : ℤ} {c c' : HttpConn}
    (h : c.init readAbi writeAbi fd userCount = .ok (c', n)) :
    n = userCount + 1 ∧ c'.isClosed = false ∧ c'.fd = fd := by
  obtain ⟨-, -, h⟩ := bind_eq_ok.mp h
  cases h
  exact ⟨rfl, rfl, rfl⟩

/-- **All that a step can do**: nothing to the slots, open a closed one, or close an open one. -/
inductive Does (s : State) : State → Prop
  | stays : Does s s
  | admits {fd : ℤ} (hclosed : fd ∉ s.opened) (hroom : s.userCount < MAX_FD) :
      Does s { s with admitted := some fd }
  | opens {fd : ℤ} {c : HttpConn} (hadmitted : s.admitted = some fd) (hopen : c.isClosed = false)
      (hfd : c.fd = fd) :
      Does s { s with
        users := Function.update s.users fd (some c)
        userCount := s.userCount + 1
        admitted := none
        calls := Function.update s.calls fd (s.calls fd ++ [.init fd]) }
  | closes {slot : ℤ} {c c' : HttpConn} (hslot : s.users slot = some c)
      (hopen : c.isClosed = false) (hclosed : c'.isClosed = true) :
      Does s { s with
        users := Function.update s.users slot (some c')
        userCount := s.userCount - 1
        calls := Function.update s.calls slot (s.calls slot ++ [.close c.fd]) }

theorem closeConn_does (s : State) (slot : ℤ) : Does s (s.closeConn slot) := by
  rw [State.closeConn]
  cases hslot : s.users slot with
  | none => exact .stays
  | some c =>
    cases hc : c.isClosed
    · simp only [HttpConn.closeConn, hc, if_true]
      exact .closes hslot hc rfl
    · have hsame : Function.update s.users slot (some c) = s.users := by
        rw [← hslot, Function.update_eq_self]
      simp only [HttpConn.closeConn, hc, Bool.true_eq_false, if_false, hsame, List.map_nil,
        List.append_nil, Function.update_eq_self]
      exact .stays

namespace Sound

/-- `accept` may return the descriptor of a slot that is not open. -/
theorem legal_accept (h : Sound s) (fd : ℤ) (hidle : s.admitted = none) (hfree : fd ∉ s.opened) :
    Legal s (.accept fd) := by
  refine ⟨hidle, fun slot c hslot hopen hfd => hfree ?_⟩
  obtain rfl : slot = fd := (h.own slot c hslot hopen).symm.trans hfd
  exact ⟨c, hslot, hopen⟩

theorem does (h : Sound s) {o : Op} (hl : Legal s o) (he : exec s o = .ok s') : Does s s' := by
  cases o with
  | accept fd =>
    obtain ⟨-, hfree⟩ := hl
    simp only [exec, State.accept] at he
    split at he
    · cases he
      exact .stays
    · split at he
      · obtain ⟨-, -, he⟩ := bind_eq_ok.mp he
        cases he
        exact .stays
      · cases he
        refine .admits ?_ (by omega)
        rintro ⟨c, hslot, hopen⟩
        exact hfree fd c hslot hopen (h.own fd c hslot hopen)
  | addClient fresh readAbi writeAbi =>
    simp only [exec, State.addClient] at he
    cases hadmitted : s.admitted with
    | none => exact absurd hadmitted hl
    | some fd =>
      rw [hadmitted] at he
      obtain ⟨-, -, he⟩ := bind_eq_ok.mp he
      obtain ⟨⟨c, n⟩, hinit, he⟩ := bind_eq_ok.mp he
      obtain ⟨rfl, hopen, hfd⟩ := of_init hinit
      cases he
      exact .opens hadmitted hopen hfd
  | close party slot =>
    cases he
    exact closeConn_does s slot

/-- What an open slot keeps when another connection is written. -/
theorem own_update (h : Sound s) (hc : c.isClosed = false → c.fd = fd) {j : ℤ} {c' : HttpConn}
    (hj : Function.update s.users fd (some c) j = some c') (hopen : c'.isClosed = false) :
    c'.fd = j := by
  obtain rfl | hne := eq_or_ne j fd
  · rw [Function.update_self] at hj
    obtain rfl := Option.some.inj hj
    exact hc hopen
  · rw [Function.update_of_ne hne] at hj
    exact h.own j c' hj hopen

/-- **Every step keeps the invariant.** -/
theorem step (h : Sound s) (hd : Does s s') : Sound s' := by
  cases hd with
  | stays => exact h
  | @admits fd hclosed hroom =>
    refine ⟨h.own, h.finite, h.count, h.bound, fun fd' hfd => ?_, h.follows⟩
    obtain rfl := Option.some.inj hfd
    exact ⟨hclosed, hroom⟩
  | @opens fd c hadmitted hopen hfd =>
    obtain ⟨hclosed, hroom⟩ := h.admitted fd hadmitted
    have hopened : opened (Function.update s.users fd (some c)) = insert fd s.opened :=
      opened_update_open hopen
    have hcount : s.userCount + 1 = (insert fd s.opened).ncard := by
      rw [Set.ncard_insert_of_notMem hclosed h.finite, h.count, Nat.cast_succ]
    have hfollows : ∀ j, Follows (Function.update s.calls fd (s.calls fd ++ [.init fd]) j) j
        (j ∈ insert fd s.opened) := by
      intro j
      obtain rfl | hne := eq_or_ne j fd
      · obtain ⟨n, ⟨-, hcalls⟩ | ⟨hmem, -⟩⟩ := h.follows j
        · refine ⟨n, .inr ⟨.inl rfl, ?_⟩⟩
          rw [Function.update_self, hcalls]
        · exact absurd hmem hclosed
      · rw [Function.update_of_ne hne, Set.mem_insert_iff, or_iff_right hne]
        exact h.follows j
    rw [← hopened] at hcount hfollows
    refine ⟨fun _ _ hj => h.own_update (fun _ => hfd) hj, ?_, hcount,
      Int.add_one_le_of_lt hroom, (fun _ hn => by cases hn), hfollows⟩
    rw [State.opened, hopened]
    exact h.finite.insert fd
  | @closes slot c c' hslot hopen hclosed =>
    have hmem : slot ∈ s.opened := ⟨c, hslot, hopen⟩
    have hopened : opened (Function.update s.users slot (some c')) = s.opened \ {slot} :=
      opened_update_closed hclosed
    have hcount : s.userCount - 1 = (s.opened \ {slot}).ncard := by
      have hncard := Set.ncard_sdiff_singleton_add_one hmem h.finite
      have hcount := h.count
      omega
    have hfollows : ∀ j, Follows (Function.update s.calls slot (s.calls slot ++ [.close c.fd]) j) j
        (j ∈ s.opened \ {slot}) := by
      intro j
      obtain rfl | hne := eq_or_ne j slot
      · obtain ⟨n, ⟨hout, -⟩ | ⟨-, hcalls⟩⟩ := h.follows j
        · exact absurd hmem hout
        · refine ⟨n + 1, .inl ⟨fun hin => hin.2 rfl, ?_⟩⟩
          rw [Function.update_self, hcalls, h.own j c hslot hopen, lives_succ, List.append_assoc]
          rfl
      · rw [Function.update_of_ne hne, Set.mem_sdiff, Set.mem_singleton_iff, and_iff_left hne]
        exact h.follows j
    rw [← hopened] at hcount hfollows
    refine ⟨fun _ _ hj => h.own_update (fun hopen' => ?_) hj, ?_, hcount,
      (sub_le_self _ zero_le_one).trans h.bound, fun fd hfd => ?_, hfollows⟩
    · rw [hclosed] at hopen'
      cases hopen'
    · rw [State.opened, hopened]
      exact h.finite.sdiff
    · obtain ⟨hfree, hroom⟩ := h.admitted fd hfd
      rw [State.opened, hopened]
      exact ⟨fun hin => hfree hin.1, (sub_le_self _ zero_le_one).trans_lt hroom⟩

theorem new : Sound State.new where
  own _ _ hslot := by cases hslot
  finite := by simp [State.opened, opened, State.new]
  count := by simp [State.opened, opened, State.new]
  bound := by decide
  admitted _ hfd := by cases hfd
  follows slot := ⟨0, .inl ⟨by simp [State.opened, opened, State.new], rfl⟩⟩

theorem reach (h : machine.Reach s) : Sound s :=
  h.invariant (fun _ hs => hs ▸ new) fun _ _ _ hs hl he => hs.step (hs.does hl he)

end Sound

/-- **`user_count` is the number of open slots**, and lies between 0 and `MAX_FD`.  A client that is
refused for `MAX_FD` leaves every slot as it was.  Of a slot that is closed every `init` has met one
`close`, with the descriptor of that `init`; of one that is open, every `init` but the last. -/
theorem userCount_exact (h : machine.Reach s) :
    s.opened.Finite ∧ s.userCount = s.opened.ncard ∧ 0 ≤ s.userCount ∧ s.userCount ≤ MAX_FD ∧
    (∀ fd s', MAX_FD ≤ s.userCount → exec s (.accept fd) = .ok s' →
      s'.users = s.users ∧ s'.admitted = s.admitted) ∧
    ∀ slot, ∃ n,
      slot ∉ s.opened ∧
        s.calls slot = (List.replicate n [Call.init slot, Call.close slot]).flatten ∨
      slot ∈ s.opened ∧
        s.calls slot = (List.replicate n [Call.init slot, Call.close slot]).flatten ++
          [Call.init slot] := by
  have hs : Sound s := Sound.reach h
  refine ⟨hs.finite, hs.count, ?_, hs.bound, fun fd s' hfull he => ?_, hs.follows⟩
  · rw [hs.count]
    exact Int.natCast_nonneg _
  · simp only [exec, State.accept, if_pos hfull] at he
    split at he
    · cases he
      exact ⟨rfl, rfl⟩
    · obtain ⟨-, -, he⟩ := bind_eq_ok.mp he
      cases he
      exact ⟨rfl, rfl⟩

/-- A client is accepted and closed twice, by a worker and by a timer; then its descriptor comes
back for another client. -/
theorem userCount_exact_reused : ∃ s : State, s.calls 5 = [.init 5, .close 5, .init 5] ∧
    s.userCount = s.opened.ncard := by
  have h₁ : machine.Reach _ :=
    .step (o := .accept 5) (.init rfl) ⟨rfl, fun _ _ hslot => by cases hslot⟩ rfl
  have h₂ : machine.Reach _ :=
    .step (o := .addClient (⟨.wild 0, 0, 0⟩, ⟨.wild 0, 0, 0⟩, .requestLine) ⟨fun _ m => m⟩
      ⟨fun _ m => m⟩) h₁ (Option.some_ne_none _) rfl
  have h₃ : machine.Reach _ :=
    .step (o := .close .worker 5) h₂ ⟨Option.some_ne_none _, fun _ => rfl⟩ rfl
  have h₄ : machine.Reach _ :=
    .step (o := .close .timer 5) h₃ ⟨Option.some_ne_none _, fun _ => rfl⟩ rfl
  have hlegal := (Sound.reach h₄).legal_accept 5 rfl
  have h₅ : machine.Reach _ := .step (o := .accept 5) h₄ (hlegal (by
    rintro ⟨c, hslot, hopen⟩
    cases hslot
    cases hopen)) rfl
  have h₆ : machine.Reach _ :=
    .step (o := .addClient (⟨.wild 0, 0, 0⟩, ⟨.wild 0, 0, 0⟩, .requestLine) ⟨fun _ m => m⟩
      ⟨fun _ m => m⟩) h₅ (Option.some_ne_none _) rfl
  exact ⟨_, rfl, (userCount_exact h₆).2.1⟩

/-! ## The dispatcher -/

section Dispatch

variable {ι : Type} {cfg : Dispatch.Config} {d d' : Dispatch.State ι}

/-- What the dispatcher keeps of the slots is what they say. -/
structure Agrees (d : Dispatch.State ι) (s : State) : Prop where
  users : ∀ fd, (d.users fd).map Dispatch.Slot.isClosed = (s.users fd).map HttpConn.isClosed
  userCount : d.userCount = s.userCount
  admitted : s.admitted = none

namespace Agrees

/-- A step of the dispatcher that the slots do not see. -/
theorem congr (h : Agrees d s) (husers : d'.users = d.users) (hcount : d'.userCount = d.userCount) :
    Agrees d' s := by
  refine ⟨?_, ?_, h.admitted⟩
  · rw [husers]
    exact h.users
  · rw [hcount]
    exact h.userCount

theorem isOpen_iff (h : Agrees d s) (fd : ℤ) : d.isOpen fd = true ↔ fd ∈ s.opened := by
  have husers := h.users fd
  rw [Dispatch.State.isOpen, State.opened, opened, Set.mem_ofPred_eq]
  cases hd : d.users fd with
  | none =>
    rw [hd, Option.map_none, eq_comm, Option.map_eq_none_iff] at husers
    simp [husers]
  | some slot =>
    rw [hd, Option.map_some, eq_comm, Option.map_eq_some_iff] at husers
    obtain ⟨c, hc, hclosed⟩ := husers
    simp [hc, hclosed]

theorem closeConn (h : Agrees d s) (fd : ℤ) : Agrees (d.closeConn fd) (s.closeConn fd) := by
  have husers := h.users fd
  rw [Dispatch.State.closeConn, State.closeConn]
  cases hd : d.users fd with
  | none =>
    rw [hd, Option.map_none, eq_comm, Option.map_eq_none_iff] at husers
    rw [husers]
    exact h
  | some slot =>
    rw [hd, Option.map_some, eq_comm, Option.map_eq_some_iff] at husers
    obtain ⟨c, hc, hclosed⟩ := husers
    rw [hc]
    refine ⟨fun j => ?_, ?_, h.admitted⟩
    · show (Function.update d.users fd (some _) j).map _
        = (Function.update s.users fd (some _) j).map _
      obtain rfl | hj := eq_or_ne j fd
      · rw [Function.update_self, Function.update_self, HttpConn.closeConn]
        cases hc' : c.isClosed <;> simp [hc']
      · rw [Function.update_of_ne hj, Function.update_of_ne hj]
        exact h.users j
    · show (if slot.isClosed then d.userCount else d.userCount - 1)
        = (c.closeConn s.userCount).2.1
      rw [HttpConn.closeConn, ← hclosed, h.userCount]
      cases c.isClosed <;> rfl

/-- A close of the dispatcher is one here. -/
theorem reach_closeConn (h : Agrees d s) (hs : machine.Reach s) (party : Party) (fd : ℤ) :
    ∃ s', machine.Reach s' ∧ Agrees (d.closeConn fd) s' := by
  have hagrees := h.closeConn fd
  cases hslot : s.users fd with
  | none =>
    rw [State.closeConn, hslot] at hagrees
    exact ⟨s, hs, hagrees⟩
  | some c =>
    refine ⟨_, .step (o := .close party fd) hs ⟨?_, fun _ => h.admitted⟩ rfl, hagrees⟩
    rw [hslot]
    exact Option.some_ne_none c

/-- A client let in by the dispatcher is admitted and added here. -/
theorem reach_accept (h : Agrees d s) (hs : machine.Reach s) (hpos : 0 < fd)
    (hclosed : d.isOpen fd = false) (hroom : d.userCount < MAX_FD) {client : ℕ}
    (husers : d'.users = Function.update d.users fd (some ⟨false, client⟩))
    (hcount : d'.userCount = d.userCount + 1) : ∃ s', machine.Reach s' ∧ Agrees d' s' := by
  have hfree : fd ∉ s.opened := by
    rw [← h.isOpen_iff, hclosed]
    exact Bool.false_ne_true
  have haccept : exec s (.accept fd) = .ok { s with admitted := some fd } := by
    have hneg : ¬ fd < 0 := by omega
    rw [exec, State.accept, if_neg hneg, ← h.userCount, if_neg (not_le.mpr hroom)]
  have h₁ : machine.Reach _ :=
    .step (o := .accept fd) hs ((Sound.reach hs).legal_accept fd h.admitted hfree) haccept
  have hadd : ∃ s', exec { s with admitted := some fd }
      (.addClient (⟨.wild 0, 0, 0⟩, ⟨.wild 0, 0, 0⟩, .requestLine) ⟨fun _ m => m⟩ ⟨fun _ m => m⟩)
        = .ok s' ∧ Agrees d' s' := by
    simp only [exec, State.addClient, HttpConn.init, assert_true hpos, ok_bind, pure_eq_ok]
    refine ⟨_, rfl, fun j => ?_, ?_, rfl⟩
    · rw [husers]
      show (Function.update d.users fd (some _) j).map _
        = (Function.update s.users fd (some _) j).map _
      obtain rfl | hj := eq_or_ne j fd
      · rw [Function.update_self, Function.update_self]
        rfl
      · rw [Function.update_of_ne hj, Function.update_of_ne hj]
        exact h.users j
    · rw [hcount, h.userCount]
  obtain ⟨s', hadd, hagrees⟩ := hadd
  exact ⟨s', .step (o := .addClient _ _ _) h₁ (Option.some_ne_none fd) hadd, hagrees⟩

end Agrees

/-- **Every run of the dispatcher is one of the slots.** -/
theorem reach_of_dispatch [DecidableEq ι] (h : (Dispatch.machine ι cfg).Reach d) :
    ∃ s, machine.Reach s ∧ Agrees d s := by
  induction h with
  | init hd =>
    cases hd
    exact ⟨State.new, .init rfl, fun _ => rfl, rfl, rfl⟩
  | step _ hl he ih =>
    obtain ⟨s, hs, hagrees⟩ := ih
    cases Dispatch.exec_does hl he with
    | refused | passed => exact ⟨s, hs, hagrees.congr rfl rfl⟩
    | accepted hpos hclosed hroom => exact hagrees.reach_accept hs hpos hclosed hroom rfl rfl
    | @hungUp fd =>
      have hreport : Agrees (Dispatch.State.report _ fd) s := hagrees.congr rfl rfl
      exact hreport.reach_closeConn hs .loop fd
    | dealt | taken | touched | rearmed => exact ⟨s, hs, hagrees.congr rfl rfl⟩
    | expired =>
      obtain ⟨s', hs', hagrees'⟩ := hagrees.reach_closeConn hs .timer _
      exact ⟨s', hs', hagrees'.congr rfl rfl⟩
    | @closed i out task =>
      have hwork : Agrees ((Dispatch.State.record _ task .closeConn).goto i none) s :=
        hagrees.congr rfl rfl
      exact hwork.reach_closeConn hs .worker task.fd

/-- **The dispatcher counts its open slots**, and has never more than `MAX_FD` of them. -/
theorem dispatch_userCount [DecidableEq ι] (h : (Dispatch.machine ι cfg).Reach d) :
    d.userCount = {fd | d.isOpen fd = true}.ncard ∧ d.userCount ≤ MAX_FD := by
  obtain ⟨s, hs, hagrees⟩ := reach_of_dispatch h
  have hopened : {fd | d.isOpen fd = true} = s.opened := Set.ext hagrees.isOpen_iff
  rw [hopened, hagrees.userCount]
  exact ⟨(Sound.reach hs).count, (Sound.reach hs).bound⟩

end Dispatch

end Users

end Server

end WebServer
