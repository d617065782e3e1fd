import WebServer.Http.Files
import WebServer.Machinery.Ledger
import WebServer.Machinery.Machine

/-!
# Http/Resources — what a response takes from the system, and gives back

A response is used for one request after the other: `init`, then `makeResponse`, and in the end its
destructor.  The length that it unmaps is not kept with the mapping, but it is still in `_file_stat`
then.  A descriptor is closed only behind a successful `mmap`.
-/

namespace WebServer

/-- What a call does to the mappings, given by their addresses and lengths. -/
def SysCall.mapping? : SysCall → Option (Entry (ℕ × ℕ))
  | .mmap addr len => some (.take (addr, len))
  | .munmap addr len => some (.give (addr, len))
  | .openFile _ | .close _ => none

/-- What a call does to the open descriptors. -/
def SysCall.descriptor? : SysCall → Option (Entry ℕ)
  | .openFile fd => some (.take fd)
  | .close fd => some (.give fd)
  | .mmap _ _ | .munmap _ _ => none

namespace HttpResponse

variable {r r' : HttpResponse} {sys : Sys} {buf buf' : Buffer} {calls : List SysCall}

/-! ## One call of `makeResponse` -/

/-- What `_addContent` does to the file and to the system. -/
theorem addContent_cases (h : r.addContent sys buf = .ok (r', buf', calls)) :
    (sys.openFile r.fileName = none ∧ r' = r ∧ calls = []) ∨
    ∃ fd, sys.openFile r.fileName = some fd ∧
      ((sys.mmap r.fileStat.size fd = none ∧ r' = r ∧ calls = [.openFile fd]) ∨
      ∃ addr, sys.mmap r.fileStat.size fd = some addr ∧ r' = { r with file := some addr } ∧
        calls = [.openFile fd, .mmap addr r.fileStat.size, .close fd]) := by
  rw [addContent, ← fileName] at h
  cases hopen : sys.openFile r.fileName with
  | none =>
    rw [hopen] at h
    obtain ⟨b, -, h⟩ := bind_eq_ok.mp h
    cases h
    exact .inl ⟨rfl, rfl, rfl⟩
  | some fd =>
    rw [hopen] at h
    refine .inr ⟨fd, rfl, ?_⟩
    cases hmmap : sys.mmap r.fileStat.size fd with
    | none =>
      simp only [hmmap] at h
      obtain ⟨b, -, h⟩ := bind_eq_ok.mp h
      cases h
      exact .inl ⟨rfl, rfl, rfl⟩
    | some addr =>
      simp only [hmmap] at h
      obtain ⟨b, -, h⟩ := bind_eq_ok.mp h
      cases h
      exact .inr ⟨addr, rfl, rfl, rfl⟩

/-- `makeResponse` ends in `_addContent`, for the settled response. -/
theorem makeResponse_addContent (h : r.makeResponse sys buf = .ok (r', buf', calls)) :
    ∃ b, (r.settled sys).addContent sys b = .ok (r', buf', calls) := by
  rw [makeResponse] at h
  obtain ⟨⟨r₁, b₁⟩, hline, h⟩ := bind_eq_ok.mp h
  rw [addStateLine_eq] at hline
  obtain ⟨b₀, -, hline⟩ := bind_eq_ok.mp hline
  cases hline
  obtain ⟨b₂, -, h⟩ := bind_eq_ok.mp h
  exact ⟨b₂, h⟩

/-! ## The life of a response -/

/-- A response from its constructor on. -/
structure Life where
  response : HttpResponse
  /-- `init` has been called, and `makeResponse` not yet. -/
  ready : Bool
  /-- The destructor has been called. -/
  ended : Bool
  calls : List SysCall
  /-- What `makeResponse` was called on, and how the system answered. -/
  asked : List (HttpResponse × Sys)

namespace Life

inductive Op where
  | init (srcDir path : Bytes) (keepAlive : Bool) (code : ℤ)
  | makeResponse (sys : Sys) (buf : Buffer)
  | destroy

def exec (s : Life) : Op → Exec Life
  | .init srcDir path keepAlive code =>
    let (response, calls) := s.response.init srcDir path keepAlive code
    .ok { s with response, ready := true, calls := s.calls ++ calls }
  | .makeResponse sys buf => do
    let (response, _, calls) ← s.response.makeResponse sys buf
    return { s with
      response, ready := false
      calls := s.calls ++ calls
      asked := s.asked ++ [(s.response, sys)] }
  | .destroy =>
    let (response, calls) := s.response.unmapFile
    .ok { s with response, ended := true, calls := s.calls ++ calls }

end Life

/-- The destructor is the last call. -/
def life : Machine Fault Life Life.Op where
  init s := s = ⟨.new, false, false, [], []⟩
  legal s _ := s.ended = false
  exec := Life.exec

/-- Each `makeResponse` has an `init` of its own before it. -/
def Prepared (s : Life) : Life.Op → Prop
  | .makeResponse _ _ => s.ready = true
  | _ => True

namespace Life

variable {s s' : Life}

/-- What has happened to mappings, and to descriptors. -/
def mappings (s : Life) : List (Entry (ℕ × ℕ)) := s.calls.filterMap SysCall.mapping?

def descriptors (s : Life) : List (Entry ℕ) := s.calls.filterMap SysCall.descriptor?

/-- The mapping that `getFile` points to; its length is the size in `_file_stat`. -/
def live (s : Life) : Option (ℕ × ℕ) := s.response.getFile.map fun addr =>
  (addr, s.response.fileStat.size)

/-! ### Mappings -/

/-- **The invariant of the mappings.** -/
structure Tidy (s : Life) : Prop where
  inTurn : Ledger.InTurn s.mappings s.live
  /-- `init` and the destructor leave no file. -/
  empty : s.ready = true ∨ s.ended = true → s.response.file = none

theorem mappings_append (hcalls : s'.calls = s.calls ++ calls) :
    s'.mappings = s.mappings ++ calls.filterMap SysCall.mapping? := by
  rw [mappings, hcalls, List.filterMap_append, mappings]

/-- `_unmapFile` gives the mapping back. -/
theorem Tidy.unmaps (h : Tidy s) (hcalls : s'.calls = s.calls ++ s.response.unmapFile.2)
    (hfile : s'.response.file = s.response.unmapFile.1.file) : Tidy s' := by
  have hturn := h.inTurn
  rw [live, getFile] at hturn
  rw [unmapFile] at hcalls hfile
  cases hmap : s.response.file with
  | none =>
    rw [hmap] at hcalls hfile hturn
    refine ⟨?_, fun _ => hfile.trans hmap⟩
    rw [mappings_append hcalls, live, getFile, hfile, hmap, List.filterMap_nil, List.append_nil]
    exact hturn
  | some addr =>
    rw [hmap] at hcalls hfile hturn
    refine ⟨?_, fun _ => hfile⟩
    rw [mappings_append hcalls, live, getFile, hfile]
    exact hturn.give

/-- **Every call keeps the invariant**, if each `makeResponse` has its `init`. -/
theorem Tidy.step (h : Tidy s) {o : Op} (hended : s.ended = false) (hp : Prepared s o)
    (he : s.exec o = .ok s') : Tidy s' := by
  cases o with
  | init srcDir path keepAlive code =>
    cases he
    exact h.unmaps rfl rfl
  | makeResponse sys buf =>
    obtain ⟨⟨r', b, calls⟩, hmake, he⟩ := bind_eq_ok.mp he
    cases he
    have hempty : s.response.file = none := h.empty (.inl hp)
    have hnone : (s.response.settled sys).file = none := by
      rw [settled_eq]
      exact hempty
    have hturn := h.inTurn
    rw [live, getFile, hempty, Option.map_none] at hturn
    refine ⟨?_, fun hends => ?_⟩
    · obtain ⟨b₁, hcontent⟩ := makeResponse_addContent hmake
      rw [mappings_append rfl, live, getFile]
      obtain ⟨-, rfl, rfl⟩ | ⟨fd, -, ⟨-, rfl, rfl⟩ | ⟨addr, -, rfl, rfl⟩⟩ :=
        addContent_cases hcontent
      · rw [hnone, List.filterMap_nil, List.append_nil]
        exact hturn
      · rw [hnone, List.filterMap_cons_none rfl, List.filterMap_nil, List.append_nil]
        exact hturn
      · exact hturn.take (addr, (s.response.settled sys).fileStat.size)
    · rw [hended] at hends
      simp at hends
  | destroy =>
    cases he
    exact h.unmaps rfl rfl

theorem Tidy.reach (h : (life.restrict Prepared).Reach s) : Tidy s := by
  refine h.invariant (fun s hs => ?_) fun s o s' hs hl he => hs.step hl.1 hl.2 he
  rw [hs]
  exact ⟨.nil, fun _ => rfl⟩

/-! ### Descriptors -/

/-- Whatever `makeResponse` opens for `x`, it can map. -/
def Closes (x : HttpResponse × Sys) : Prop :=
  ∀ fd, x.2.openFile (x.1.settled x.2).fileName = some fd →
    (x.2.mmap (x.1.settled x.2).fileStat.size fd).isSome

theorem descriptors_append (hcalls : s'.calls = s.calls ++ calls) :
    s'.descriptors = s.descriptors ++ calls.filterMap SysCall.descriptor? := by
  rw [descriptors, hcalls, List.filterMap_append, descriptors]

/-- `_unmapFile` touches no descriptor. -/
theorem descriptors_unmaps (hcalls : s'.calls = s.calls ++ s.response.unmapFile.2) :
    s'.descriptors = s.descriptors := by
  rw [descriptors_append hcalls, unmapFile]
  cases s.response.file <;> exact List.append_nil _

/-- **A step leaves a descriptor open if and only if it is a `makeResponse` that opens a file and
cannot map it.** -/
theorem held_step (hinv : Ledger.held s.descriptors = [] ↔ ∀ x ∈ s.asked, Closes x) {o : Op}
    (he : s.exec o = .ok s') :
    Ledger.held s'.descriptors = [] ↔ ∀ x ∈ s'.asked, Closes x := by
  cases o with
  | init srcDir path keepAlive code =>
    cases he
    rw [descriptors_unmaps (s := s) rfl]
    exact hinv
  | makeResponse sys buf =>
    obtain ⟨⟨r', b, calls⟩, hmake, he⟩ := bind_eq_ok.mp he
    cases he
    obtain ⟨b₁, hcontent⟩ := makeResponse_addContent hmake
    rw [descriptors_append (s := s) rfl, List.forall_mem_append, List.forall_mem_singleton]
    obtain ⟨hopen, -, rfl⟩ | ⟨fd, hopen, ⟨hmmap, -, rfl⟩ | ⟨addr, hmmap, -, rfl⟩⟩ :=
      addContent_cases hcontent
    · have hcloses : Closes (s.response, sys) := fun fd hfd => by
        rw [hopen] at hfd
        cases hfd
      rw [List.filterMap_nil, List.append_nil, and_iff_left hcloses]
      exact hinv
    · have hopens : ¬ Closes (s.response, sys) := fun hcloses => by
        have hmap := hcloses fd hopen
        rw [hmmap] at hmap
        cases hmap
      refine iff_of_false (fun hheld => ?_) fun h => hopens h.2
      exact List.cons_ne_nil _ _ ((Ledger.held_take s.descriptors fd).symm.trans hheld)
    · have hcloses : Closes (s.response, sys) := fun fd' hfd => by
        obtain rfl := Option.some.inj (hopen.symm.trans hfd)
        rw [hmmap]
        rfl
      rw [and_iff_left hcloses, ← hinv]
      exact iff_of_eq (congrArg (· = []) (Ledger.held_turn s.descriptors fd))
  | destroy =>
    cases he
    rw [descriptors_unmaps (s := s) rfl]
    exact hinv

end Life

/-! ## What a life has taken and given back -/

variable {s : Life}

/-- **Every mapping is unmapped once, as it was mapped.**  At no time is more than one mapping live,
`getFile` is null or points to that one, what is unmapped is that one, with its address and its
length, and behind the destructor everything that was mapped has been unmapped, and as often. -/
theorem mappings_paired (h : (life.restrict Prepared).Reach s) :
    Ledger.InTurn s.mappings s.live ∧
    (∀ pre, pre <+: s.mappings → (Ledger.held pre).length ≤ 1) ∧
    s.response.getFile.toList = (Ledger.held s.mappings).map Prod.fst ∧
    (s.ended = true → Ledger.held s.mappings = [] ∧
      ∀ m, s.mappings.count (.take m) = s.mappings.count (.give m)) := by
  have htidy : Life.Tidy s := .reach h
  have hturn := htidy.inTurn
  refine ⟨hturn, fun pre hpre => hturn.length_held_le hpre, ?_, fun hended => ?_⟩
  · rw [hturn.held_eq, Life.live]
    cases s.response.getFile <;> rfl
  · have hlive : s.live = none := by
      rw [Life.live, getFile, htidy.empty (.inr hended), Option.map_none]
    rw [hlive] at hturn
    exact ⟨hturn.held_eq, fun m => hturn.count_take m⟩

/-- The response to a request for the only file of a system. -/
theorem makeResponse_serving (r : HttpResponse) (file : Bytes) (hb : buf.Ok)
    (hroom : buf.writePos + (r.head (HttpConn.serving file)).length + 1 < 2 ^ 64) :
    ∃ r' b', r'.fileStat.size = file.length ∧
      r.makeResponse (HttpConn.serving file) buf = .ok (r', b',
        if file = [] then [.openFile 7] else [.openFile 7, .mmap 4096 file.length, .close 7]) ∧
      (file ≠ [] → r'.file = some 4096) := by
  obtain ⟨⟨st, hst, hreg, hread, hlen⟩, -⟩ := HttpConn.holds_serving r.fileName file
  have hsettled := settled_of_readable hst (Stat.isDir_of_isReg hreg) hread
  obtain ⟨b', calls, hmake, -⟩ := makeResponse_eq hb hroom
  obtain ⟨b₁, hcontent⟩ := makeResponse_addContent hmake
  rw [hmake]
  rw [hsettled] at hcontent ⊢
  obtain ⟨hopen, -⟩ | ⟨fd, hopen, ⟨hmmap, -, rfl⟩ | ⟨addr, hmmap, hfile, rfl⟩⟩ :=
    addContent_cases hcontent
  · cases hopen
  · cases hopen
    have hempty : file = [] := by simpa [HttpConn.serving, hlen] using hmmap
    exact ⟨_, b', hlen, by rw [if_pos hempty], fun hne => absurd hempty hne⟩
  · cases hopen
    obtain ⟨hne, rfl⟩ : file ≠ [] ∧ 4096 = addr := by
      simpa [HttpConn.serving, hlen, List.length_pos_iff] using hmmap
    exact ⟨_, b', hlen, by rw [if_neg hne, hlen], fun _ => congrArg HttpResponse.file hfile⟩

/-- The life of a response that has met one request, for the only file of a system. -/
theorem reach_serving (path file : Bytes) (hroom : (Buffer.new 0).writePos +
      ((HttpResponse.new.init [] path true 200).1.head (HttpConn.serving file)).length + 1
        < 2 ^ 64) :
    ∃ s : Life, (life.restrict Prepared).Reach s ∧ s.ended = false ∧
      s.calls = (if file = [] then [.openFile 7]
        else [.openFile 7, .mmap 4096 file.length, .close 7]) ∧
      s.asked = [((HttpResponse.new.init [] path true 200).1, HttpConn.serving file)] ∧
      s.response.fileStat.size = file.length ∧ (file ≠ [] → s.response.file = some 4096) := by
  obtain ⟨r', b', hsize, hmake, hfile⟩ :=
    makeResponse_serving (HttpResponse.new.init [] path true 200).1 file
      (Buffer.new_ok (n := 0) (by decide)) hroom
  have h₁ : (life.restrict Prepared).Reach _ :=
    .step (o := .init [] path true 200) (.init rfl) ⟨rfl, trivial⟩ rfl
  have h₂ : (life.restrict Prepared).Reach _ :=
    .step (o := .makeResponse (HttpConn.serving file) (.new 0)) h₁ ⟨rfl, rfl⟩
      (congrArg (· >>= _) hmake)
  exact ⟨_, h₂, rfl, rfl, rfl, hsize, hfile⟩

/-- A response to a file of two bytes, which is mapped at 4096. -/
theorem mappings_paired_hi : ∃ s : Life, s.mappings = [.take (4096, 2), .give (4096, 2)] ∧
    ∀ m, s.mappings.count (.take m) = s.mappings.count (.give m) := by
  obtain ⟨s, h, hended, hcalls, -, hsize, hfile⟩ :=
    reach_serving (str "/hi") (str "hi") (by decide +kernel)
  have hend : (life.restrict Prepared).Reach _ := .step (o := .destroy) h ⟨hended, trivial⟩ rfl
  refine ⟨_, ?_, ((mappings_paired hend).2.2.2 rfl).2⟩
  simp only [Life.mappings, hfile (by decide), hcalls, hsize]
  decide +kernel

/-- **No descriptor is left open if and only if every file that was opened could be mapped.** -/
theorem held_nil_iff (h : life.Reach s) :
    Ledger.held s.descriptors = [] ↔ ∀ x ∈ s.asked, Life.Closes x := by
  refine h.invariant (I := fun s => Ledger.held s.descriptors = [] ↔ ∀ x ∈ s.asked, Life.Closes x)
    (fun s hs => ?_) fun s o s' hs _ he => Life.held_step hs he
  rw [hs]
  exact iff_of_true rfl (List.forall_mem_nil _)

theorem held_nil_iff_hi : ∃ s : Life, s.descriptors = [.take 7, .give 7] ∧
    Ledger.held s.descriptors = [] := by
  obtain ⟨s, h, -, hcalls, hasked, -⟩ := reach_serving (str "/hi") (str "hi") (by decide +kernel)
  refine ⟨s, ?_, (held_nil_iff h.of_restrict).mpr ?_⟩
  · rw [Life.descriptors, hcalls]
    rfl
  · rw [hasked, List.forall_mem_singleton]
    intro fd hfd
    cases hfd
    decide +kernel

/-- An empty file is opened and cannot be mapped. -/
theorem not_held_nil_empty : ∃ s : Life, life.Reach s ∧ s.descriptors = [.take 7] ∧
    Ledger.held s.descriptors ≠ [] := by
  obtain ⟨s, h, -, hcalls, -⟩ := reach_serving (str "/empty") [] (by decide +kernel)
  have hdescriptors : s.descriptors = [.take 7] := by
    rw [Life.descriptors, hcalls]
    rfl
  refine ⟨s, h.of_restrict, hdescriptors, ?_⟩
  rw [hdescriptors]
  exact List.cons_ne_nil _ _

end HttpResponse

end WebServer
